import StrongCyclic.Report.Solve
import StrongCyclic.Settings.Check
import StrongCyclic.Synthesis.Workspace

/-!
Solving a problem from its task file to a verified controller. A weak plan, if one is asked for, may
show that there is no controller or raise the least size to try; then undo pairs are detected,
constraints are gathered and the sizes are tried. All calls of the solver share one time limit.
-/

namespace StrongCyclic.Synthesis

variable {σ : Type}

/-- What is found out about a problem. -/
structure Findings where
  outcome : SolveOutcome
  /-- The length of the backbone. -/
  backbone : Option Nat := none
  check : Option RunCheck := none
deriving DecidableEq, Repr

/-- What the search for a controller starts from. -/
structure Hints where
  backbone : Option Nat
  sizes : SizeRange
  /-- Programs that are passed to the search. -/
  constraints : List Path
deriving DecidableEq, Repr

/-- The hints without a backbone. -/
def Hints.ofSettings (s : Settings) : Hints :=
  ⟨none, s.solver.sizes, []⟩

/-- The hints of a backbone, whose length bounds the size from below. -/
def Hints.ofBackbone (s : Settings) (length : Nat) (constraints : List Path) : Hints :=
  ⟨some length, { s.solver.sizes with min := max s.solver.sizes.min length }, constraints⟩

/-- Writes an instance of the task. -/
def writeInstance (s : Settings) (task : Task) (purpose : Encoding.Purpose) (file : Path) :
    Job σ Failure Unit :=
  Job.asFailure (Job.change (·.write file (Encoding.instanceText task s.encoding purpose)))

/-- Writes a file of the run. -/
def writeFile (file : Path) (text : String) : Job σ Trouble Unit :=
  Job.mapError Trouble.file (Job.change (·.write file text))

/-- The time that is left. -/
def budget (deadline : Deadline) : Job σ Trouble (Option Duration) := do
  return deadline.remaining (← get).clock

/-- The path of a file that may not be asked for. -/
def locateOption : Option Path → Job σ Trouble (List Path)
  | none => return []
  | some path => do return [← Workspace.locate path]

/-- Searches for a weak plan. -/
def searchWeakPlan (s : Settings) (solver : Solver σ) (directory : Path) (task : Task)
    (deadline : Deadline) : Job σ Trouble BackboneEstimate := do
  let instanceFile := directory.join FileNames.weakInstance
  Job.asTrouble (writeInstance s task .weakPlan instanceFile)
  let program ← Workspace.locate s.backbone.weakPlanProgram
  let knowledge ← locateOption s.backbone.sequentialKnowledge
  let call : SolverCall :=
    { inputs := program :: instanceFile :: knowledge, args := ["--stats"], directory }
  Job.during .estimatingBackbone
    (estimateBackbone solver call (directory.join FileNames.weakPlanOutput) (← budget deadline))

/-- Turns what is known about weak plans into an outcome or into hints. -/
def useEstimate (s : Settings) (directory : Path) :
    BackboneEstimate → Job σ Trouble (SolveOutcome ⊕ Hints)
  | .unsolvable => do
    writeFile (directory.join FileNames.unsolvable) "Unsat"
    return .inl .unsolvable
  | .timedOut => return .inl (.timedOut s.solver.sizes.min)
  | .found b => do
    if s.backbone.sizeOnly then return .inr (Hints.ofBackbone s b.length [])
    else
      let file := directory.join FileNames.backbone
      writeFile file (b.constraints s.backbone.style)
      return .inr (Hints.ofBackbone s b.length [file])

/-- The hints of a weak plan, if one is asked for, or the outcome that its search gives. -/
def findHints (s : Settings) (solver : Solver σ) (directory : Path) (task : Task)
    (deadline : Deadline) : Job σ Trouble (SolveOutcome ⊕ Hints) := do
  if s.backbone.enabled then
    let estimate ← searchWeakPlan s solver directory task deadline
    useEstimate s directory estimate
  else return .inr (Hints.ofSettings s)

/-- Detects undo pairs, if they are asked for, and returns the program against them. -/
def forbidUndo (s : Settings) (solver : Solver σ) (directory instanceFile : Path)
    (deadline : Deadline) : Job σ Trouble (List Path) := do
  match s.constraints.undoProgram with
  | none => return []
  | some program =>
    let program ← Workspace.locate program
    let call : SolverCall := { inputs := [instanceFile, program], args := ["--stats"], directory }
    let file ← Job.during .detectingUndo
      (detectUndo solver call (directory.join FileNames.undoOutput) (← budget deadline)
        s.constraints.undoByType)
    let path ← Job.asTrouble (file.write directory)
    return [path]

/-- The check of a controller that has been found, if it is asked for; else it may be
written down. -/
def checkSolution (s : Settings) (directory : Path) (outcome : SolveOutcome) :
    Job σ Trouble (Option RunCheck) := do
  match outcome with
  | .solved _ _ _ =>
    if s.output.verify then
      let check ← RunDirectory.check directory
      return some check
    else
      if s.output.dumpController then
        let _ ← RunDirectory.rebuild directory
      return none
  | _ => return none

/-- Searches for a controller. -/
def searchController (s : Settings) (solver : Solver σ) (providers : List (ConstraintProvider σ))
    (directory instanceFile : Path) (task : Task) (deadline : Deadline) (hints : Hints) :
    Job σ Trouble Findings := do
  let _ ← Job.asTrouble (RunDirectory.removeOutputs directory)
  let controllerModel ← Workspace.copyProgram s.solver.controllerModel directory
  let undo ← forbidUndo s solver directory instanceFile deadline
  let given : ConstraintProvider σ := fun _ => ConstraintFile.loadAll s.constraints.files
  let constraints ← Job.asTrouble
    (Workspace.writeConstraints directory task 1 (given :: providers))
  let plan : SearchPlan :=
    { controllerModel, instanceFile, constraints := hints.constraints ++ undo ++ constraints
      args := s.solver.args, directory }
  let outcome ← Job.asTrouble (Search.sizes solver plan hints.sizes deadline)
  let check ← checkSolution s directory outcome
  return { outcome, backbone := hints.backbone, check }

/-- Looks for a controller of a task whose goal does not hold initially. -/
def synthesize (s : Settings) (solver : Solver σ) (providers : List (ConstraintProvider σ))
    (directory : Path) (task : Task) : Job σ Trouble Findings := do
  let instanceFile := directory.join FileNames.controllerInstance
  Job.during (.writingInstance instanceFile) (writeInstance s task .controller instanceFile)
  let deadline : Deadline := ⟨(← get).clock, s.timeLimit⟩
  match ← findHints s solver directory task deadline with
  | .inl outcome => return { outcome }
  | .inr hints => searchController s solver providers directory instanceFile task deadline hints

/-- Solves the problem that the settings describe. -/
def solve (s : Settings) (solver : Solver σ) (providers : List (ConstraintProvider σ)) :
    Job σ Trouble SolveReport := do
  let start := (← get).clock
  let directory ← Workspace.prepare s.output.directory
  let task ← loadTask s.taskFile
  Workspace.copyInto s.taskFile (directory.join FileNames.task)
  let findings ←
    if task.goalHoldsInitially then pure { outcome := .trivial }
    else synthesize s solver providers directory task
  return {
    outcome := findings.outcome
    statistics := task.statistics
    backbone := findings.backbone
    check := findings.check
    elapsed := ⟨(← get).clock.nanos - start.nanos⟩ }

/-- Checks the settings and solves the problem that they describe. -/
def checkAndSolve (s : Settings) (solver : Solver σ) : Job σ Trouble SolveReport := do
  Job.asTrouble s.check
  solve s solver []

end StrongCyclic.Synthesis
