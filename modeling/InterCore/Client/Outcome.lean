import InterCore.Client.Query

/-!
# Outcomes

The answers of queries of all forms as one type.
-/

namespace InterCore.Client

open InterCore.Config (Reply)

/-- A query of any form. -/
structure AnyQuery where
  {shape : Shape}
  query : Query shape

/-- The answer of a query of any form. -/
inductive Outcome where
  | done
  | count (n : Nat)
  | number (v : Int32)
  | reply (r : Reply)
  deriving DecidableEq, Repr

/-- The answer of a query whose form is known. -/
def Outcome.of : (shape : Shape) → shape.Result → Outcome
  | .done, () => .done
  | .count, n => .count n
  | .number, v => .number v
  | .reply, r => .reply r

end InterCore.Client
