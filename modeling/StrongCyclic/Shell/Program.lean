import StrongCyclic.Process.Basic
import StrongCyclic.Shell.Evaluation

/-!
Programs that can be started: the shell with its scripts and the small programs. A name without a
slash is looked up among them; a path has to lead to one of them. A program has its working
directory to itself, no input, and the time that it is given.
-/

namespace StrongCyclic.Shell

/-- The bound on the depth of a run. -/
def depth : Nat := 100000

/-- The start of a program, if there is one with this name. -/
def start? (name : String) (words : List String) : Option (Script Unit) :=
  if isShell name then some (runShell depth name words)
  else (utilityOf? name).map fun utility => callUtility utility words

/-- Why a program cannot be started. -/
def missingFault (files : FileTree) (name : String) : FileFault :=
  if name.toList.contains '/' then
    match files.locate ⟨name⟩ with
    | .ok _ => .permissionDenied
    | .error fault => fault
  else .notFound

/-- The place of the directory that a program is to run in. -/
def workPlace (files : FileTree) (directory : Path) : Except FileFault Place := do
  match ← files.locate directory with
  | (place, .directory) => return place
  | (_, .file _) => .error .notADirectory

/-- How a script ended, by the reason that it stopped for and its last status. -/
def endingOf (result : Except Stop Unit) (status : Nat) : Ending :=
  match result with
  | .error (.exit status) => .exited status
  | .error (.killed signal) => .killed signal
  | .error .timeOver => .stopped
  | _ => .exited status

/-- Runs programs on files. -/
def runner : ProcessRunner := fun process budget files => do
  if (process.executable :: process.args).any (·.toList.any (·.toNat == 0)) then
    .error .zeroInArgument
  else
    let place ← workPlace files process.directory
    let inside := { files with workingDirectory := place }
    match start? process.executable process.args with
    | none => .error (missingFault inside process.executable)
    | some script =>
      let session : Session :=
        { name := process.executable, arguments := process.args, files := inside, limit := budget
          bindings := [("PWD", (FileTree.pathOf place).text)] }
      let (result, s) := if budget = some ⟨0⟩ then (.error .timeOver, session) else script session
      let s := s.settle
      return { ending := endingOf result s.status
               stdout := Text.ofBytes (Session.joined s.out)
               stderr := Text.ofBytes (Session.joined s.err)
               files := { s.files with workingDirectory := files.workingDirectory }
               elapsed := s.clock }

end StrongCyclic.Shell
