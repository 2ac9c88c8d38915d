import StrongCyclic.Controller.Graph
import StrongCyclic.Controller.OfAnswer
import StrongCyclic.Controller.TextForm
import StrongCyclic.Guidance.Detection
import StrongCyclic.Sas.Task

/-!
The directory of a run, from which its controller can be rebuilt and verified. What counts is the
output of the largest attempt. An attempt that ran out of time has no controller and is not held
against the run.
-/

namespace StrongCyclic

/-- What the verification of a run directory found. -/
structure RunCheck where
  directory : Path
  sound : Bool
  timedOut : Bool
  controllerStates : Nat
  reachablePairs : Nat
deriving DecidableEq, Repr, Inhabited

namespace RunCheck

/-- The check of a run that ran out of time. -/
def ofTimeOut (directory : Path) : RunCheck :=
  ⟨directory, true, true, 0, 0⟩

/-- The check of a run with a controller. -/
def ofVerdict (directory : Path) (c : Controller) (v : Verification.Verdict) : RunCheck :=
  ⟨directory, v.strongCyclic, false, c.size, v.space.size⟩

/-- The lines that a check leaves in the directory. -/
def record (check : RunCheck) : String :=
  "Solution is sound: " ++ toString check.sound ++ "\nTimed Out: " ++ toString check.timedOut

end RunCheck

/-- Reads the planning task in a file. -/
def loadTask {σ : Type} (path : Path) : Job σ Trouble Task := do
  let text ← Job.duringFile (.readingTask path) (Job.query (·.read path))
  Job.during (.parsingTask path) (Job.ofExcept ((Sas.parse text).mapError Failure.ofStop))

namespace RunDirectory

variable {σ : Type}

/-- The names of attempts with the numbers of states, in the order of the names. -/
def attempts (names : List String) : List (Nat × String) :=
  names.filterMap fun name => (FileNames.attemptSize? name).map fun size => (size, name)

/-- The larger of two attempts, or the first one. -/
def larger (best : Option (Nat × String)) (attempt : Nat × String) : Option (Nat × String) :=
  match best with
  | some (size, name) => if size < attempt.1 then some attempt else some (size, name)
  | none => some attempt

/-- The name of the largest attempt. -/
def largestAttempt? (names : List String) : Option String :=
  ((attempts names).foldl larger none).map Prod.snd

/-- The output of the largest attempt. -/
def lastOutput (directory : Path) : Job σ Trouble Path := do
  let names ← Job.duringFile (.reading directory) (Job.query (·.list directory))
  match largestAttempt? names with
  | some name => return directory.join name
  | none => throw (.note (.noOutput directory))

/-- Writes the text form and the graph of a controller. -/
def writeController (directory : Path) (c : Controller) (vars : List Variable) :
    Job σ Trouble Unit := do
  let textFile := directory.join FileNames.controllerText
  Job.duringFile (.writing textFile) (Job.change (·.write textFile (c.textWithVariables vars)))
  let graphFile := directory.join FileNames.controllerGraph
  Job.duringFile (.writingGraph graphFile)
    (Job.change (·.write graphFile (c.graph vars).json))

/-- The answer that an output settles on, if it states that there is one. -/
def settledAnswer (file : Path) (text : String) : Except Trouble Answer := do
  let out ← (readOutput text).mapError (Trouble.during (.parsing file) ∘ Trouble.failure)
  match out.lastAnswer? with
  | some answer => if out.isSatisfiable then .ok answer else .error (.note (.noController file))
  | none => .error (.note (.noController file))

/-- Rebuilds the controller of a run and writes it down; there is none if the last attempt ran out
of time. -/
def rebuild (directory : Path) : Job σ Trouble (Option (Controller × Task)) := do
  let file ← lastOutput directory
  let text ← Job.duringFile (.reading file) (Job.query (·.read file))
  if Text.contains timedOutMark text then return none
  let answer ← Job.ofExcept (settledAnswer file text)
  let task ← loadTask (directory.join FileNames.task)
  let c ← Job.during (.buildingController file)
    (Job.ofExcept
      ((Controller.ofAnswer answer task.vars.length).mapError Failure.controller))
  writeController directory c task.vars
  return some (c, task)

/-- Verifies the controller of a run. -/
def verdictOf (directory : Path) (c : Controller) (task : Task) :
    Except Trouble Verification.Verdict :=
  (Verification.verify c task).mapError
    (Trouble.during (.verifying directory) ∘ Trouble.failure ∘ Failure.verification)

/-- Rebuilds and verifies the controller of a run and leaves a record. -/
def check (directory : Path) : Job σ Trouble RunCheck := do
  let result ← match ← rebuild directory with
    | some (c, task) =>
      let v ← Job.ofExcept (verdictOf directory c task)
      pure (RunCheck.ofVerdict directory c v)
    | none => pure (RunCheck.ofTimeOut directory)
  let file := directory.join FileNames.verification
  Job.duringFile (.writing file) (Job.change (·.write file result.record))
  return result

/-- Removes files by name. -/
def removeAll (directory : Path) : List String → Job σ Failure Unit
  | [] => return
  | name :: names => do
    Job.asFailure (Job.change (·.remove (directory.join name)))
    removeAll directory names

/-- Removes the outputs of all attempts and returns their number. -/
def removeOutputs (directory : Path) : Job σ Failure Nat := do
  let names ← Job.asFailure (Job.query (·.list directory))
  let outputs := (attempts names).map Prod.snd
  removeAll directory outputs
  return outputs.length

end RunDirectory

end StrongCyclic
