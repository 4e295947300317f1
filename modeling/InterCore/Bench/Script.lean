import InterCore.Fault

/-!
# Scripts

A bench runs a script of steps against one part of the library and reports every step. The step
that faults is the last one that is reported.
-/

namespace InterCore.Bench

/-- Runs steps in order. Gives the report of each, and the state after the last step that did not
fault. -/
def runScript (step : α → StateT σ (Except Fault) β) :
    List α → σ → List (Except Fault β) × σ
  | [], s => ([], s)
  | a :: rest, s =>
    match step a s with
    | .error fault => ([.error fault], s)
    | .ok (report, s) =>
      let (reports, s) := runScript step rest s
      (.ok report :: reports, s)

end InterCore.Bench
