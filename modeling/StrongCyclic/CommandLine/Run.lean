import StrongCyclic.CommandLine.Request
import StrongCyclic.Report.Color
import StrongCyclic.Report.Listing
import StrongCyclic.Settings.File
import StrongCyclic.Solver.Process
import StrongCyclic.Synthesis.Solve

/-!
Running what a command line asks for. What has been printed before a trouble stays printed; the
trouble itself is reported on the second stream and gives status one, or 101 if it is a crash.
-/

namespace StrongCyclic.CommandLine

/-- Work that prints; the printed texts are kept, the last one first. -/
abbrev Dialogue (α : Type) := ExceptT Trouble (StateT (List String) (StateM (World Unit))) α

namespace Dialogue

/-- Prints a text and ends the line. -/
def print (text : String) : Dialogue Unit :=
  ExceptT.lift (modify ((text ++ "\n") :: ·))

/-- Does work that does not print. -/
def perform {α : Type} (job : Job Unit Trouble α) : Dialogue α :=
  ExceptT.mk (StateT.lift job.run)

end Dialogue

open Dialogue

/-- What a run of a command uses: the terminal and the programs that can be started. -/
structure Surroundings where
  terminal : Terminal
  programs : ProcessRunner

/-- The settings in a file, or the default ones if there is no such file. -/
def loadSettings (t : Terminal) (file : Path) : Dialogue Settings := do
  if ← perform (Job.inspect (·.exists? file)) then
    perform (Job.within (.loadingSettings file) (Settings.load file))
  else
    print (t.warning ("Config file " ++ file.text ++ " not found, using defaults"))
    return {}

/-- The lines about settings. -/
def settingsLines (s : Settings) : List String :=
  ["Configuration:",
    "  SAS file: " ++ s.taskFile.text,
    "  States: " ++ toString s.solver.sizes.min ++ ".." ++ toString s.solver.sizes.max ++
      " step " ++ toString s.solver.sizes.step,
    "  Backbone: " ++ toString s.backbone.enabled,
    "  Output dir: " ++ s.output.directory.text,
    ""]

/-- The last line about an outcome. -/
def outcomeLine (t : Terminal) (outcome : SolveOutcome) : String :=
  match outcome with
  | .trivial | .solved _ _ _ => t.success ("Solved: " ++ outcome.text)
  | .timedOut _ => t.warning ("Stopped: " ++ outcome.text)
  | .unsolvable | .exhausted _ => t.error ("Failed: " ++ outcome.text)

/-- Solves a problem. -/
def runSolve (around : Surroundings) (verbose : Bool) (settingsFile : Path)
    (overrides : Overrides) : Dialogue Unit := do
  let t := around.terminal
  print (t.info "Starting FOND controller search")
  let s := (← loadSettings t settingsFile).override overrides
  if verbose then (settingsLines s).forM print
  let solver : Solver Unit := Solver.ofProcess around.programs s.solver.executable
  let report ← perform (Job.within .solving (Synthesis.checkAndSolve s solver))
  if verbose then print report.statistics.text
  print report.text
  print (outcomeLine t report.outcome)
  if report.check.any (!·.sound) then print (t.error "Controller is not strong-cyclic")

/-- Checks run directories, each by itself. A crash ends all checks. -/
def checkAll : List Path → Dialogue (List (Except Trouble RunCheck))
  | [] => return []
  | directory :: directories => do
    let result ← perform
      (Job.settle (Job.within (.checkingRun directory) (RunDirectory.check directory)))
    return result :: (← checkAll directories)

/-- Shows the controller of a run and its verification. -/
def showDetails (t : Terminal) (directory : Path) : Dialogue Unit := do
  match ← perform (RunDirectory.rebuild directory) with
  | none => return
  | some (c, task) =>
    print (t.info directory.text)
    print (c.listing task.vars)
    let verdict ← perform
      (Job.asTrouble (Job.ofExcept ((Verification.verify c task).mapError Failure.verification)))
    print verdict.details

/-- The last line about run directories. -/
def checksLine (t : Terminal) (checks : List RunCheck) (total : Nat) : String :=
  let unsound := (checks.filter (!·.sound)).length
  if unsound = 0 ∧ checks.length = total then t.success "All controllers are strong-cyclic"
  else t.error (toString unsound ++ " unsound, " ++ toString (total - checks.length) ++ " failed")

/-- Verifies runs. -/
def runVerify (t : Terminal) (directories : List Path) (details : Bool) : Dialogue Unit := do
  print (t.info ("Verifying " ++ toString directories.length ++ " run(s)..."))
  let results ← checkAll directories
  for result in results do
    match result with
    | .error trouble => print (t.error trouble.text)
    | .ok _ => pure ()
  let checks := results.filterMap Except.toOption
  print (RunCheck.table checks)
  if details then
    (checks.filter (!·.timedOut)).forM fun check => showDetails t check.directory
  print (checksLine t checks directories.length)

/-- Analyzes a task. -/
def runAnalyze (t : Terminal) (taskFile : Path) (encoding : Bool) : Dialogue Unit := do
  print (t.info "Analyzing SAS file...")
  let task ← perform (loadTask taskFile)
  print task.statistics.text
  print ("Goal met in the initial state: " ++ toString task.goalHoldsInitially)
  if encoding then
    print ("\n" ++ (Encoding.statistics task (Encoding.instanceText task {} .controller)).text)

/-- The settings for a search with a backbone. -/
def backboneSettings : Settings :=
  let s : Settings := {}
  { s with
    backbone := { s.backbone with enabled := true }
    solver := { s.solver with timeLimit := some 3600 } }

/-- Sets up a directory. -/
def runSetup (t : Terminal) (directory : Path) (force : Bool) : Dialogue Unit := do
  print (t.info "Setting up project structure...")
  let folder := directory.join "config"
  for path in [folder, directory.join "output"] do
    perform (Job.duringFile (.creatingDirectory path) (Job.change (·.createDirectories path)))
  let file := folder.join "default.yaml"
  if force || !(← perform (Job.inspect (·.exists? file))) then
    perform (Job.within .creatingDefaults (Settings.save {} file))
    print ("Created: " ++ file.text)
  else print ("Skipped: " ++ file.text ++ " (already exists)")
  let backboneFile := folder.join "backbone.yaml"
  if force || !(← perform (Job.inspect (·.exists? backboneFile))) then
    perform (backboneSettings.save backboneFile)
    print ("Created: " ++ backboneFile.text)
  print ("\n" ++ t.success "Setup complete!")
  print "\nNext steps:"
  print ("1. Point input.sas_file in " ++ file.text ++ " at a translated problem")
  print "2. Check solver.controller_model and solver.clingo"
  print ("3. Run: fond_asp solve --config " ++ file.text)

/-- Does what is asked for. -/
def respond (around : Surroundings) (call : Call) : Dialogue Unit :=
  match call.request with
  | .solve settingsFile overrides => runSolve around call.verbose settingsFile overrides
  | .verify directories details => runVerify around.terminal directories details
  | .analyze taskFile encoding => runAnalyze around.terminal taskFile encoding
  | .setup directory force => runSetup around.terminal directory force

/-- What is left of a run of the program. -/
structure Finish where
  status : Nat
  stdout : String
  stderr : String
  files : FileTree
deriving DecidableEq, Repr, Inhabited

/-- The commands and their options in short. -/
def usage : String :=
  "Usage: fond_asp [-v] <solve|verify|analyze|setup> [OPTIONS]\n"

/-- Runs the program with the words of a command line. -/
def run (around : Surroundings) (words : List String) (files : FileTree) : Finish :=
  match read words with
  | .error .version => ⟨0, "fond_asp 0.1.0\n", "", files⟩
  | .error .help => ⟨0, usage, "", files⟩
  | .error .misuse => ⟨2, "", usage, files⟩
  | .ok call =>
    let ((result, printed), world) := (respond around call).run [] ⟨files, (), ⟨0⟩⟩
    let stdout := String.join printed.reverse
    match result with
    | .ok () => ⟨0, stdout, "", world.files⟩
    | .error trouble =>
      match trouble.crash? with
      | some crash => ⟨101, stdout, crash.message ++ "\n", world.files⟩
      | none => ⟨1, stdout, "Error: " ++ trouble.report ++ "\n", world.files⟩

end StrongCyclic.CommandLine
