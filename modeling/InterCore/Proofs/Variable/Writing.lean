import InterCore.Proofs.Config.Mirroring
import InterCore.Variable.Hooks

/-!
# Two ways to write a variable

The application sets a variable by its identifier, and the other core writes to it at its index. The
first goes by way of the variable, the second by way of the store and its hooks, and both come to
the same on the first variable with the identifier, whatever the write hook does to it.
-/

namespace InterCore

open Variable (Call Conduct Occasion limit)

/-! ## Bringing a value into a range -/

namespace Variable

variable {lo hi value other : Int32}

theorem limit_limit : limit (limit value lo hi) lo hi = limit value lo hi := by
  unfold limit
  grind [Int32.lt_iff_toInt_lt]

theorem limit_mono (less : value ≤ other) : limit value lo hi ≤ limit other lo hi := by
  unfold limit
  grind [Int32.lt_iff_toInt_lt, Int32.le_iff_toInt_le]

theorem limit_mem (range : lo ≤ hi) : lo ≤ limit value lo hi ∧ limit value lo hi ≤ hi := by
  unfold limit
  grind [Int32.lt_iff_toInt_lt, Int32.le_iff_toInt_le]

end Variable

/-! ## The variable that is meant -/

namespace VarTable

variable {t : VarTable} {id value : Int32} {i : Nat} {v : Variable}

/-- The first variable with an identifier, at its index. -/
structure First (t : VarTable) (id : Int32) (i : Nat) (v : Variable) : Prop where
  here : t.vars[i]? = some v
  id_eq : v.id = id
  first : ∀ j w, j < i → t.vars[j]? = some w → w.id ≠ id

theorem First.indexOfId?_eq (h : t.First id i v) : t.indexOfId? id = some i := by
  obtain ⟨inside, rfl⟩ := List.getElem?_eq_some_iff.mp h.here
  refine List.findIdx?_eq_some_iff_getElem.mpr ⟨inside, decide_eq_true h.id_eq, ?_⟩
  intro j below same
  exact h.first j _ below (List.getElem?_eq_getElem _) (of_decide_eq_true same)

theorem indexOfId?_of_unknown (unknown : ∀ v ∈ t.vars, v.id ≠ id) : t.indexOfId? id = none :=
  List.findIdx?_eq_none_iff.mpr fun v mem => decide_eq_false (unknown v mem)

theorem unknown_or_first (t : VarTable) (id : Int32) :
    (∀ v ∈ t.vars, v.id ≠ id) ∨ ∃ i v, t.First id i v := by
  cases found : t.indexOfId? id with
  | none =>
    left
    intro v mem
    exact of_decide_eq_false (List.findIdx?_eq_none_iff.mp found v mem)
  | some i =>
    obtain ⟨inside, same, first⟩ := List.findIdx?_eq_some_iff_getElem.mp found
    refine .inr ⟨i, t.vars[i], List.getElem?_eq_getElem inside, of_decide_eq_true same, ?_⟩
    intro j w below there
    obtain ⟨inside', rfl⟩ := List.getElem?_eq_some_iff.mp there
    intro same'
    exact first j below (decide_eq_true same')

/-- A variable that was just put in is changed once more. -/
theorem update_set (here : t.vars[i]? = some v) (w : Variable) (calls : List Call)
    (f : Variable → Variable × List Call) :
    VarTable.update ⟨t.vars.set i w, calls⟩ i f = ⟨t.vars.set i (f w).1, calls ++ (f w).2⟩ := by
  have inside := (List.getElem?_eq_some_iff.mp here).1
  rw [update_eq (List.getElem?_set_self inside), List.set_set]

/-- The limited value is put in. -/
theorem store_limited (here : t.vars[i]? = some v) (value : Int32) :
    VarStore.store t i (limit value (VarStore.min t i) (VarStore.max t i)) =
      ⟨t.vars.set i (v.setLimited value), t.calls⟩ := by
  obtain ⟨-, min, max, -, -⟩ := fields_eq here
  rw [min, max]
  refine (update_eq here _).trans ?_
  rw [List.append_nil]
  rfl

theorem aspect_setLimited (here : t.vars[i]? = some v) :
    t.aspect (fun v => (v.setLimited value).value) i = limit value v.min v.max :=
  aspect_eq here _

/-! ## The two ways -/

/-- Both ways to write a value to the variable with an identifier. `set` sets it by the identifier,
with the write hook or without it, `write` writes to it at an index, and `run` runs the hook. -/
structure WaysAgree (t : VarTable) (id value : Int32) (run : Variable → Variable × List Call)
    (set : Bool → Answer Int32 × VarTable) (write : Nat → Int32 × VarTable) : Prop where
  meant : (∀ v ∈ t.vars, v.id ≠ id) ∨ ∃ i v, t.First id i v
  /-- The hook finds the limited value in place, and the answer tells that value whatever the hook
  makes of it. -/
  writes : ∀ i v, t.First id i v → write i = (limit value v.min v.max,
    ⟨t.vars.set i (run (v.setLimited value)).1, t.calls ++ (run (v.setLimited value)).2⟩)
  sets : ∀ i v, t.First id i v → set true = (.ok (write i).1, (write i).2)
  /-- Without the hook the limited value stays. -/
  quiet : ∀ i v, t.First id i v →
    set false = (.ok (write i).1, ⟨t.vars.set i (v.setLimited value), t.calls⟩)
  unknown : (∀ v ∈ t.vars, v.id ≠ id) → ∀ trigger, set trigger = (.error .unknownVariable, t)

end VarTable

namespace TableWith

variable {conduct : List Call → Conduct} {t : TableWith conduct} {id value : Int32} {i : Nat}
  {v : Variable}

/-- The hook of a variable that was just put in is run. -/
theorem fire_set (here : t.table.vars[i]? = some v) (occasion : Occasion) (w : Variable) :
    fire (⟨⟨t.table.vars.set i w, t.table.calls⟩⟩ : TableWith conduct) occasion i =
      ⟨⟨t.table.vars.set i (Variable.conducted (conduct t.table.calls) occasion w).1,
        t.table.calls ++ (Variable.conducted (conduct t.table.calls) occasion w).2⟩⟩ := by
  rw [fire, VarTable.update_set here]

theorem write_eq (here : t.table.vars[i]? = some v) : VarStore.write t i value =
    (limit value v.min v.max, ⟨⟨t.table.vars.set i
        (Variable.conducted (conduct t.table.calls) .write (v.setLimited value)).1,
      t.table.calls ++
        (Variable.conducted (conduct t.table.calls) .write (v.setLimited value)).2⟩⟩) := by
  obtain ⟨-, min, max, -, -⟩ := VarTable.fields_eq here
  show (limit value (VarStore.min t.table i) (VarStore.max t.table i), fire ⟨VarStore.store t.table i
    (limit value (VarStore.min t.table i) (VarStore.max t.table i))⟩ .write i) = _
  rw [VarTable.store_limited here, min, max, fire_set here]

/-- What setting a variable leaves. -/
theorem setLimited_eq (here : t.table.vars[i]? = some v) (trigger : Bool) :
    t.setLimited i value trigger = (limit value v.min v.max,
      if trigger then fire ⟨⟨t.table.vars.set i (v.setLimited value), t.table.calls⟩⟩ .write i
      else ⟨⟨t.table.vars.set i (v.setLimited value), t.table.calls⟩⟩) := by
  rw [setLimited, VarTable.aspect_setLimited here, VarTable.update_eq here, List.append_nil]

theorem setById_of_unknown (unknown : ∀ v ∈ t.table.vars, v.id ≠ id) (trigger : Bool) :
    t.setById id value trigger = (.error .unknownVariable, t) := by
  rw [setById, VarTable.indexOfId?_of_unknown unknown]

theorem setById_of_first (h : t.table.First id i v) (trigger : Bool) :
    t.setById id value trigger =
      (.ok (t.setLimited i value trigger).1, (t.setLimited i value trigger).2) := by
  rw [setById, h.indexOfId?_eq]

theorem waysAgree (t : TableWith conduct) (id value : Int32) :
    VarTable.WaysAgree t.table id value (Variable.conducted (conduct t.table.calls) .write)
      (fun trigger => ((t.setById id value trigger).1, (t.setById id value trigger).2.table))
      (fun i => ((VarStore.write t i value).1, (VarStore.write t i value).2.table)) where
  meant := t.table.unknown_or_first id
  writes i v h := by rw [write_eq h.here]
  sets i v h := by
    rw [write_eq h.here, setById_of_first h, setLimited_eq h.here, if_pos rfl, fire_set h.here]
  quiet i v h := by
    rw [write_eq h.here, setById_of_first h, setLimited_eq h.here, if_neg Bool.false_ne_true]
  unknown none trigger := by rw [setById_of_unknown none]

end TableWith

open VarTable (WaysAgree)

/-- To set a variable by its identifier, with its write hook, and to write to it at its index come
to the same: the answer, the table and the runs of hooks. That holds of a table with hooks of any
kind and of one whose hooks react once, whether or not identifiers are unique and ranges are empty.
A value that was brought into a range stays, a greater one becomes no smaller, and if the range is
not empty the value is within. -/
theorem write_paths_agree (id value : Int32) :
    (∀ (conduct : List Call → Conduct) (t : TableWith conduct),
      WaysAgree t.table id value (Variable.conducted (conduct t.table.calls) .write)
        (fun trigger => ((t.setById id value trigger).1, (t.setById id value trigger).2.table))
        (fun i => ((VarStore.write t i value).1, (VarStore.write t i value).2.table))) ∧
      (∀ t : VarTable, WaysAgree t id value Variable.fireWrite (t.setById id value)
        (VarStore.write t · value)) ∧
      ∀ lo hi, limit (limit value lo hi) lo hi = limit value lo hi ∧
        (∀ greater, value ≤ greater → limit value lo hi ≤ limit greater lo hi) ∧
        (lo ≤ hi → lo ≤ limit value lo hi ∧ limit value lo hi ≤ hi) := by
  refine ⟨fun _ t => t.waysAgree id value, ?_, ?_⟩
  · intro t
    have ways := t.reacting.waysAgree id value
    simp only [VarTable.setById_reacting, VarTable.write_reacting,
      funext Variable.conducted_reactions_write] at ways
    exact ways
  · intro lo hi
    exact ⟨Variable.limit_limit, fun _ => Variable.limit_mono, Variable.limit_mem⟩

/-- Two variables with one identifier. The range of the first is empty, and its write hook turns the
value around. -/
def twins : VarTable :=
  ⟨[⟨7, "trim", "", 0, 10, 5, none, some (.negate 3)⟩, ⟨7, "gain", "", 1, 0, 9, none, none⟩], []⟩

theorem write_paths_agree_of_twins :
    ∃ v t, twins.First 7 0 v ∧ twins.setById 7 8 true = (.ok 10, t) ∧
      VarStore.write twins 0 8 = (10, t) ∧ t.values = [-10, 1] ∧ t.calls = [⟨7, .write, 3, 10⟩] ∧
        limit 8 0 9 ≤ limit 12 0 9 ∧ limit 8 0 9 ≤ 9 := by
  obtain ⟨-, agree, limits⟩ := write_paths_agree 7 8
  have ways := agree twins
  have first : twins.First 7 0 ⟨7, "trim", "", 0, 10, 5, none, some (.negate 3)⟩ :=
    ⟨rfl, rfl, fun j w below => absurd below (Nat.not_lt_zero j)⟩
  have writes := ways.writes 0 _ first
  have sets := ways.sets 0 _ first
  rw [writes] at sets
  obtain ⟨-, monotone, within⟩ := limits 0 9
  exact ⟨_, _, first, sets, writes, rfl, rfl, monotone 12 (by decide), (within (by decide)).2⟩

end InterCore
