import InterCore.Client.Pool

/-!
# The slots of a pool

What each change of a pool does to its slots, and that it leaves the other slots as they were.
-/

namespace InterCore.Client

namespace SlotState

/-- A response is still to come. -/
@[simp]
def IsPending : SlotState → Prop
  | waiting => True
  | abandoned => True
  | _ => False

/-- A ticket will collect the result. -/
@[simp]
def IsHeld : SlotState → Prop
  | waiting => True
  | done _ => True
  | _ => False

/-- The response has arrived and was not collected. -/
@[simp]
def IsDone : SlotState → Prop
  | done _ => True
  | _ => False

/-- The result that is to be collected, if there is one. -/
@[simp]
def result? : SlotState → Option (Answer InterCore.Config.Reply)
  | done result => some result
  | _ => none

instance : DecidablePred IsDone
  | free => inferInstanceAs (Decidable False)
  | waiting => inferInstanceAs (Decidable False)
  | abandoned => inferInstanceAs (Decidable False)
  | done _ => inferInstanceAs (Decidable True)

theorem IsPending.ne_free {state : SlotState} (h : state.IsPending) : state ≠ free := by
  rintro rfl
  exact h

theorem IsHeld.ne_free {state : SlotState} (h : state.IsHeld) : state ≠ free := by
  rintro rfl
  exact h

theorem IsDone.ne_free {state : SlotState} (h : state.IsDone) : state ≠ free := by
  rintro rfl
  exact h

theorem IsDone.isHeld {state : SlotState} (h : state.IsDone) : state.IsHeld := by
  cases state with
  | done result => trivial
  | _ => exact h.elim

theorem IsDone.not_isPending {state : SlotState} (h : state.IsDone) : ¬state.IsPending := by
  cases state with
  | done result => exact id
  | _ => exact h.elim

end SlotState

namespace Pool

variable {n : Nat} {p : Pool n} {i j : Fin n}

/-- The sequence number of the last request in a slot. -/
def seqOf (p : Pool n) (i : Fin n) : UInt32 :=
  (p.slots.get i).seq

/-- Frees a slot. -/
def recycle (p : Pool n) (i : Fin n) : Pool n :=
  (p.setState i .free).release i

/-- The pool with another pending list. -/
def withPending (p : Pool n) (pending : List (UInt32 × Fin n)) : Pool n :=
  { p with pending }

/-- The pool with a request in slot `i`, which was on top of the other free slots. -/
def opened (p : Pool n) (i : Fin n) (free : List (Fin n)) : Pool n :=
  { p with
    slots := p.slots.set i ⟨p.nextSeq, .waiting⟩ i.isLt
    free
    pending := p.pending ++ [(p.nextSeq, i)]
    nextSeq := p.nextSeq + 1 }

/-! ## What each change leaves as it was -/

theorem get_set {α : Type} (xs : Vector α n) (i j : Fin n) (x : α) :
    (xs.set i x i.isLt).get j = if j = i then x else xs.get j := by
  show (xs.set i x i.isLt)[j.val] = if j = i then x else xs[j.val]
  rw [Vector.getElem_set]
  by_cases same : j = i
  · rw [if_pos same, if_pos (congrArg Fin.val same.symm)]
  · rw [if_neg same, if_neg fun h => same (Fin.ext h.symm)]

theorem stateOf_setState (p : Pool n) (i j : Fin n) (state : SlotState) :
    (p.setState i state).stateOf j = if j = i then state else p.stateOf j := by
  rw [stateOf, setState, get_set, apply_ite Slot.state]
  rfl

@[simp]
theorem stateOf_setState_self (p : Pool n) (i : Fin n) (state : SlotState) :
    (p.setState i state).stateOf i = state := by
  rw [stateOf_setState, if_pos rfl]

theorem stateOf_setState_of_ne (p : Pool n) (state : SlotState) (h : j ≠ i) :
    (p.setState i state).stateOf j = p.stateOf j := by
  rw [stateOf_setState, if_neg h]

@[simp]
theorem seqOf_setState (p : Pool n) (i j : Fin n) (state : SlotState) :
    (p.setState i state).seqOf j = p.seqOf j := by
  rw [seqOf, setState, get_set, apply_ite Slot.seq]
  by_cases same : j = i
  · rw [if_pos same, same]
    rfl
  · rw [if_neg same]
    rfl

@[simp]
theorem stateOf_release (p : Pool n) (i j : Fin n) : (p.release i).stateOf j = p.stateOf j := by
  unfold release
  split <;> rfl

@[simp]
theorem seqOf_release (p : Pool n) (i j : Fin n) : (p.release i).seqOf j = p.seqOf j := by
  unfold release
  split <;> rfl

@[simp]
theorem pending_release (p : Pool n) (i : Fin n) : (p.release i).pending = p.pending := by
  unfold release
  split <;> rfl

@[simp]
theorem nextSeq_release (p : Pool n) (i : Fin n) : (p.release i).nextSeq = p.nextSeq := by
  unfold release
  split <;> rfl

@[simp]
theorem count_release (p : Pool n) (i : Fin n) : (p.release i).count = p.count := by
  unfold release
  split <;> rfl

theorem free_release (room : p.free.length < n) : (p.release i).free = i :: p.free := by
  rw [release, if_pos room]

@[simp]
theorem stateOf_withPending (p : Pool n) (pending : List (UInt32 × Fin n)) :
    (p.withPending pending).stateOf = p.stateOf := rfl

theorem stateOf_recycle (p : Pool n) (i j : Fin n) :
    (p.recycle i).stateOf j = if j = i then .free else p.stateOf j := by
  rw [recycle, stateOf_release, stateOf_setState]

@[simp]
theorem seqOf_recycle (p : Pool n) (i j : Fin n) : (p.recycle i).seqOf j = p.seqOf j := by
  rw [recycle, seqOf_release, seqOf_setState]

@[simp]
theorem pending_recycle (p : Pool n) (i : Fin n) : (p.recycle i).pending = p.pending :=
  pending_release _ i

@[simp]
theorem nextSeq_recycle (p : Pool n) (i : Fin n) : (p.recycle i).nextSeq = p.nextSeq :=
  nextSeq_release _ i

@[simp]
theorem count_recycle (p : Pool n) (i : Fin n) : (p.recycle i).count = p.count :=
  count_release _ i

theorem stateOf_opened (p : Pool n) (i j : Fin n) (free : List (Fin n)) :
    (p.opened i free).stateOf j = if j = i then .waiting else p.stateOf j := by
  rw [stateOf, opened, get_set, apply_ite Slot.state]
  rfl

theorem seqOf_opened (p : Pool n) (i j : Fin n) (free : List (Fin n)) :
    (p.opened i free).seqOf j = if j = i then p.nextSeq else p.seqOf j := by
  rw [seqOf, opened, get_set, apply_ite Slot.seq]
  rfl

end Pool

/-! ## What becomes of a ticket -/

namespace Ticket

open InterCore.Config (Reply)

variable {n : Nat} {t : Ticket n} {p : Pool n} {result : Answer Reply}

theorem take?_finished (finished : t.finished = true) : t.take? p = (none, t, p) := by
  rw [take?, if_pos finished]

theorem take?_waiting (unfinished : t.finished = false) (waiting : p.stateOf t.slot = .waiting) :
    t.take? p = (none, t, p) := by
  simp only [take?, unfinished, waiting, Bool.false_eq_true, if_false]

theorem take?_done (unfinished : t.finished = false) (done : p.stateOf t.slot = .done result) :
    t.take? p = (some result, { t with finished := true }, p.recycle t.slot) := by
  simp only [take?, unfinished, done, Bool.false_eq_true, if_false, Pool.recycle]

theorem drop_finished (finished : t.finished = true) : t.drop p = p := by
  rw [drop, if_pos finished]

theorem drop_waiting (unfinished : t.finished = false) (waiting : p.stateOf t.slot = .waiting) :
    t.drop p = p.setState t.slot .abandoned := by
  simp only [drop, unfinished, waiting, Bool.false_eq_true, if_false]

theorem drop_done (unfinished : t.finished = false) (done : p.stateOf t.slot = .done result) :
    t.drop p = p.recycle t.slot := by
  simp only [drop, unfinished, done, Bool.false_eq_true, if_false, Pool.recycle]

end Ticket

end InterCore.Client
