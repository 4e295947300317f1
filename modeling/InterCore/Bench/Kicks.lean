import InterCore.Kick

/-!
# Bench for the kick counters
-/

namespace InterCore.Bench.Kicks

/-- One thing that happens to the counters. -/
inductive Step where
  | tx
  | rx
  | takeTx
  | takeRx
  /-- The processor idles, which counts nothing. -/
  | spin

/-- The counters after a step, with the answer of a step that asks. -/
def Step.run (kicks : InterCore.Kicks) : Step → Option Bool × InterCore.Kicks
  | .tx => (none, kicks.onTx)
  | .rx => (none, kicks.onRx)
  | .takeTx => let (taken, kicks) := kicks.takeTx; (some taken, kicks)
  | .takeRx => let (taken, kicks) := kicks.takeRx; (some taken, kicks)
  | .spin => (none, kicks)

/-- Every step's answer, with the counters after it. -/
def run (kicks : InterCore.Kicks) : List Step → List (Option Bool × InterCore.Kicks)
  | [] => []
  | step :: rest =>
    let (answer, kicks) := step.run kicks
    (answer, kicks) :: run kicks rest

end InterCore.Bench.Kicks
