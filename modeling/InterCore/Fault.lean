/-!
# Faults

What ends a run. A fault is a broken promise of the caller, such as an address outside the memory
that the two cores share, or a wait that nothing will ever end. No state survives it.
-/

namespace InterCore

/-- The ways in which a run can end without an answer. -/
inductive Fault where
  /-- An access that does not lie within the shared memory. -/
  | outsideMemory
  /-- A ring whose size is no power of two. -/
  | ringSize
  /-- A ring or a buffer that does not end below the top of the address space. -/
  | addressSpace
  /-- The use of an end of a ring that was never set up. -/
  | notSetUp
  /-- A table index at or beyond the number of variables. -/
  | noSuchVariable
  /-- A ring that never ran empty. -/
  | livelock
  /-- A choice among no descriptors. -/
  | nothingToChoose
  /-- A wait with no further event to end it. -/
  | blocked
  deriving DecidableEq, Repr

end InterCore
