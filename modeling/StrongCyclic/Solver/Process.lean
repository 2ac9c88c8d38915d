import StrongCyclic.Process.Basic
import StrongCyclic.Solver.Call

/-!
The solver as a program. It is called with the input programs followed by the arguments. It has done
its work if it ends with one of the statuses that stand for a result and reports no error.
-/

namespace StrongCyclic.Solver

/-- The statuses of a solver that has done its work: plain, interrupted, satisfiable, satisfiable
and interrupted, unsatisfiable, optimum found. -/
def normalStatuses : List Nat := [0, 1, 10, 11, 20, 30]

/-- The mark of an error among the messages of a solver. -/
def errorMark : String := "*** ERROR"

/-- Whether a solver has done its work. -/
def isNormal (ending : Ending) (stderr : String) : Bool :=
  match ending with
  | .exited status => normalStatuses.contains status && !Text.contains errorMark stderr
  | _ => false

/-- The result of a solver that was run with the given words. -/
def resultOf (command : String) (run : ProcessRun) : Except Failure SolverRun :=
  if run.ending = .stopped then .ok (.timedOut run.stdout)
  else if isNormal run.ending run.stderr then .ok (.finished run.stdout)
  else .error (.solver command run.ending.text (Text.trim run.stderr))

variable {σ : Type}

/-- The solver with an executable. -/
def ofProcess (runner : ProcessRunner) (executable : Path) : Solver σ := fun call budget => do
  let command := call.commandLine executable.text
  let world ← get
  let process : ProcessCall :=
    { executable := executable.text, args := call.inputs.map Path.text ++ call.args,
      directory := call.directory }
  match runner process budget world.files with
  | .error fault => throw (.solver command "not started" fault.message)
  | .ok run =>
    set { world with files := run.files, clock := ⟨world.clock.nanos + run.elapsed.nanos⟩ }
    Job.ofExcept (resultOf command run)

end StrongCyclic.Solver
