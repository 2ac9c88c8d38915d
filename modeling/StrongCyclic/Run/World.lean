import StrongCyclic.Number.Duration
import StrongCyclic.Run.Failure

/-!
The world of a run: the files, the state of the solver and the clock. A job changes the world and
ends with a result or with an error; what it has changed before an error stays changed. Time passes
only while the solver runs.
-/

namespace StrongCyclic

/-- What a run can observe and change. -/
structure World (σ : Type) where
  files : FileTree
  solver : σ
  clock : Duration
deriving Repr, Inhabited

/-- A piece of work in the world. -/
abbrev Job (σ ε α : Type) := ExceptT ε (StateM (World σ)) α

namespace Job

variable {σ ε ε' α : Type}

/-- Looks at the files. -/
def inspect (f : FileTree → α) : Job σ ε α := do
  return f (← get).files

/-- Reads from the files. -/
def query (f : FileTree → Except FileFault α) : Job σ FileFault α := do
  ExceptT.mk (pure (f (← get).files))

/-- Changes the files. -/
def change (f : FileTree → Except FileFault FileTree) : Job σ FileFault Unit := do
  let world ← get
  match f world.files with
  | .ok files => set { world with files }
  | .error fault => throw fault

/-- A result that is already there. -/
def ofExcept (result : Except ε α) : Job σ ε α :=
  ExceptT.mk (pure result)

/-- Changes the form of the error. -/
def mapError (f : ε → ε') (job : Job σ ε α) : Job σ ε' α :=
  ExceptT.adapt f job

/-- The result or the error of a job as a value. -/
def observe (job : Job σ ε α) : Job σ ε' (Except ε α) :=
  ExceptT.lift job.run

/-- A file operation as a part of library work. -/
def asFailure (job : Job σ FileFault α) : Job σ Failure α :=
  mapError Failure.file job

/-- Library work as a part of a run. -/
def asTrouble (job : Job σ Failure α) : Job σ Trouble α :=
  mapError Trouble.failure job

/-- Library work during a step. -/
def during (note : Note) (job : Job σ Failure α) : Job σ Trouble α :=
  mapError (Trouble.during note ∘ Trouble.failure) job

/-- A file operation during a step. -/
def duringFile (note : Note) (job : Job σ FileFault α) : Job σ Trouble α :=
  mapError (Trouble.during note ∘ Trouble.file) job

/-- A part of a run during a step. -/
def within (note : Note) (job : Job σ Trouble α) : Job σ Trouble α :=
  mapError (Trouble.during note) job

/-- The result or the trouble of a job as a value. A crash is no value: it ends this job as well. -/
def settle (job : Job σ Trouble α) : Job σ Trouble (Except Trouble α) := do
  match ← observe job with
  | .ok a => return .ok a
  | .error trouble => if trouble.crash?.isSome then throw trouble else return .error trouble

end Job

end StrongCyclic
