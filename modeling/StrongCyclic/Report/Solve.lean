import StrongCyclic.Run.Directory
import StrongCyclic.Search.SizeSearch

/-!
Reports of solved problems and of verified run directories.
-/

namespace StrongCyclic

/-- What is known at the end of the work on a problem. -/
structure SolveReport where
  outcome : SolveOutcome
  statistics : Task.Statistics
  /-- The length of the backbone. -/
  backbone : Option Nat
  check : Option RunCheck
  elapsed : Duration
deriving DecidableEq, Repr, Inhabited

/-- The heading of an outcome. -/
def SolveOutcome.title : SolveOutcome → String
  | trivial => "Trivial"
  | solved _ _ _ => "Solved"
  | unsolvable => "Unsolvable"
  | exhausted _ => "No Solution"
  | timedOut _ => "Timed Out"

/-- The lines about the controller. -/
def SolveOutcome.controllerLines : SolveOutcome → List String
  | trivial => ["Controller States: 1"]
  | solved size states output =>
    ["numStates: " ++ toString size, "Controller States: " ++ toString states,
      "Solver Output: " ++ output.text]
  | _ => []

/-- The report in lines. -/
def SolveReport.text (r : SolveReport) : String :=
  Text.unlines
    (["=== " ++ r.outcome.title ++ " ===",
      "Solve Time: " ++ r.elapsed.seconds.fixedText 3 ++ "s"] ++
      (r.backbone.map fun n => "Backbone Length: " ++ toString n).toList ++
      r.outcome.controllerLines ++
      (r.check.map fun check => "Strong Cyclic: " ++ toString check.sound).toList)

namespace RunCheck

/-- An answer to a question. -/
def yesNo (b : Bool) : String :=
  if b then "yes" else "no"

/-- A check as a row of a table. -/
def row (check : RunCheck) : String :=
  " | ".intercalate
    [Text.alignLeft 5 (yesNo check.sound), Text.alignLeft 7 (yesNo check.timedOut),
      Text.alignRight 6 (toString check.controllerStates),
      Text.alignRight 6 (toString check.reachablePairs), check.directory.text]

/-- Checks as a table. -/
def table (checks : List RunCheck) : String :=
  Text.unlines
    (["Verification Summary:",
      "Sound | Timeout | States | Pairs  | Directory",
      "------|---------|--------|--------|----------"] ++ checks.map row)

end RunCheck

end StrongCyclic
