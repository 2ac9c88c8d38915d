import StrongCyclic.Guidance.ConstraintFile
import StrongCyclic.Run.FileNames

/-!
The directory that a run works in. It gets copies of the task and of the controller program, so that
it can be checked without the files it was made from.
-/

namespace StrongCyclic

/-- A source of further constraints on a task. -/
abbrev ConstraintProvider (σ : Type) := Task → Job σ Failure (List ConstraintFile)

namespace Workspace

variable {σ : Type}

/-- The absolute path of something that has to be there. -/
def locate (path : Path) : Job σ Trouble Path :=
  Job.duringFile (.fileNotFound path) (Job.query (·.canonical path))

/-- Creates the directory and returns its absolute path. -/
def prepare (directory : Path) : Job σ Trouble Path := do
  Job.duringFile (.creatingOutput directory) (Job.change (·.createDirectories directory))
  locate directory

/-- Whether two paths lead to the same file. -/
def isSame (source target : Path) : Job σ Trouble Bool := do
  if ← Job.inspect (·.exists? target) then
    let a ← locate source
    let b ← locate target
    return a = b
  else return false

/-- Copies a file unless it is there already. -/
def copyInto (source target : Path) : Job σ Trouble Unit := do
  if ← isSame source target then return
  Job.duringFile (.copying source target) (Job.change (·.copy source target))

/-- Copies a program into the directory under its name and returns the path of the copy. -/
def copyProgram (program directory : Path) : Job σ Trouble Path := do
  match program.fileName? with
  | none => throw (.note (.invalidProgram program))
  | some name =>
    let target := directory.join name
    copyInto program target
    return target

/-- Writes the constraints of providers, numbered from `index` on, and returns their paths. -/
def writeConstraints (directory : Path) (task : Task) :
    Nat → List (ConstraintProvider σ) → Job σ Failure (List Path)
  | _, [] => return []
  | index, provider :: providers => do
    let files ← provider task
    let paths ← ConstraintFile.writeNumbered directory index files
    let rest ← writeConstraints directory task (index + files.length) providers
    return paths ++ rest

end Workspace

end StrongCyclic
