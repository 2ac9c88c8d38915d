import StrongCyclic.Run.World

/-!
Constraint programs that are passed to the controller search. A program is written under its name;
the ones that come from outside are numbered, which sets them apart from each other and from the
other files of a run.
-/

namespace StrongCyclic

/-- A named program. -/
structure ConstraintFile where
  name : String
  contents : String
deriving DecidableEq, Repr, Inhabited

namespace ConstraintFile

/-- The program under a numbered name. -/
def numbered (file : ConstraintFile) (index : Nat) : ConstraintFile :=
  ⟨"constraint_" ++ toString index ++ "_" ++ file.name, file.contents⟩

/-- The path of a program in a directory. -/
def pathIn (file : ConstraintFile) (directory : Path) : Path :=
  directory.join (file.name ++ ".lp")

variable {σ : Type}

/-- Writes a program into a directory and returns its path. -/
def write (file : ConstraintFile) (directory : Path) : Job σ Failure Path := do
  let path := file.pathIn directory
  Job.asFailure (Job.change (·.write path file.contents))
  return path

/-- The program in a file, named after the file. -/
def load (path : Path) : Job σ Failure ConstraintFile := do
  let contents ← Job.asFailure (Job.query (·.read path))
  match path.fileStem? with
  | some name => return ⟨name, contents⟩
  | none => throw (.settings (.invalidConstraintFile path))

/-- The programs in files. -/
def loadAll : List Path → Job σ Failure (List ConstraintFile)
  | [] => return []
  | path :: paths => do
    let file ← load path
    let files ← loadAll paths
    return file :: files

/-- Writes programs under the names numbered from `index` on and returns their paths. -/
def writeNumbered (directory : Path) (index : Nat) :
    List ConstraintFile → Job σ Failure (List Path)
  | [] => return []
  | file :: files => do
    let path ← (file.numbered index).write directory
    let paths ← writeNumbered directory (index + 1) files
    return path :: paths

end ConstraintFile

end StrongCyclic
