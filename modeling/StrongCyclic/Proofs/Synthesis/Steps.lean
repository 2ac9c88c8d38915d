import StrongCyclic.Proofs.Run.Returns
import StrongCyclic.Proofs.Fallible
import StrongCyclic.Synthesis.Solve

/-!
A run between its calls. What a run does falls into calls of the solver and steps that lead from one
call to the next: the opening, up to the task; the weak plan call and the use of its reply; the
undo call and the use of its reply; the gathering of the constraints. Each part of a run is its
calls with these steps around them, and each step that ends with a result says which one.
-/

namespace StrongCyclic

open Job

variable {σ : Type}

namespace Synthesis

/-! ### The steps -/

/-- The steps before the task is looked at. -/
def opening (s : Settings) : Job σ Trouble (Path × Task) := do
  let directory ← Workspace.prepare s.output.directory
  let task ← loadTask s.taskFile
  Workspace.copyInto s.taskFile (directory.join FileNames.task)
  return (directory, task)

/-- The report on a run that began at `start`. -/
def reportOn (start : Duration) (task : Task) (findings : Findings) (now : Duration) :
    SolveReport where
  outcome := findings.outcome
  statistics := task.statistics
  backbone := findings.backbone
  check := findings.check
  elapsed := ⟨now.nanos - start.nanos⟩

/-- The steps to the call for a weak plan. -/
def weakPlanCall (s : Settings) (directory : Path) (task : Task) : Job σ Trouble SolverCall := do
  let instanceFile := directory.join FileNames.weakInstance
  Job.asTrouble (writeInstance s task .weakPlan instanceFile)
  let program ← Workspace.locate s.backbone.weakPlanProgram
  let knowledge ← locateOption s.backbone.sequentialKnowledge
  return { inputs := program :: instanceFile :: knowledge, args := ["--stats"], directory }

/-- What the reply to the call for a weak plan is taken for. -/
def readEstimate (outputFile : Path) (run : SolverRun) : Job σ Failure BackboneEstimate := do
  Job.asFailure (Job.change (·.write outputFile run.stdout))
  if run.isTimedOut then return .timedOut
  let out ← Job.ofExcept (readOutput run.stdout)
  let backbone ← Job.ofExcept (Backbone.ofOutput out)
  return BackboneEstimate.ofBackbone backbone

/-- The steps after the call for a weak plan. -/
def useWeakReply (s : Settings) (directory : Path) (run : SolverRun) :
    Job σ Trouble (SolveOutcome ⊕ Hints) := do
  let estimate ← Job.during .estimatingBackbone
    (readEstimate (directory.join FileNames.weakPlanOutput) run)
  useEstimate s directory estimate

/-- The call for undo pairs. -/
def undoCall (directory instanceFile program : Path) : SolverCall where
  inputs := [instanceFile, program]
  args := ["--stats"]
  directory := directory

/-- The program that the reply to the call for undo pairs amounts to. -/
def readUndo (outputFile : Path) (byType : Bool) (run : SolverRun) : Job σ Failure ConstraintFile := do
  Job.asFailure (Job.change (·.write outputFile run.stdout))
  let out ← Job.ofExcept (readOutput run.stdout)
  return ⟨FileNames.undoConstraints, UndoPair.constraints byType (UndoPair.ofOutput out)⟩

/-- The steps after the call for undo pairs. -/
def useUndoReply (s : Settings) (directory : Path) (run : SolverRun) : Job σ Trouble (List Path) := do
  let file ← Job.during .detectingUndo
    (readUndo (directory.join FileNames.undoOutput) s.constraints.undoByType run)
  let path ← Job.asTrouble (file.write directory)
  return [path]

/-- The steps from the hints to the undo pairs: no old output is left, and the controller model is in
the directory. -/
def clean (s : Settings) (directory : Path) : Job σ Trouble Path := do
  let _ ← Job.asTrouble (RunDirectory.removeOutputs directory)
  Workspace.copyProgram s.solver.controllerModel directory

/-- The steps from the undo pairs to the first attempt. -/
def gather (s : Settings) (providers : List (ConstraintProvider σ)) (directory : Path)
    (task : Task) : Job σ Failure (List Path) :=
  Workspace.writeConstraints directory task 1
    ((fun _ => ConstraintFile.loadAll s.constraints.files) :: providers)

/-- The steps up to the first attempt. -/
def planSearch (s : Settings) (solver : Solver σ) (providers : List (ConstraintProvider σ))
    (directory instanceFile : Path) (task : Task) (deadline : Deadline) (hints : Hints) :
    Job σ Trouble SearchPlan := do
  let controllerModel ← clean s directory
  let undo ← forbidUndo s solver directory instanceFile deadline
  let constraints ← Job.asTrouble (gather s providers directory task)
  return { controllerModel, instanceFile, constraints := hints.constraints ++ undo ++ constraints,
           args := s.solver.args, directory }

section Parts

variable (s : Settings) (solver : Solver σ) (providers : List (ConstraintProvider σ))
  (directory instanceFile : Path) (task : Task) (deadline : Deadline)

theorem findHints_eq :
    findHints s solver directory task deadline =
      if s.backbone.enabled then do
        let call ← weakPlanCall s directory task
        let world ← get
        let run ← Job.during .estimatingBackbone (solver call (deadline.remaining world.clock))
        useWeakReply s directory run
      else return .inr (Hints.ofSettings s) := by
  have hestimate : ∀ call budget, estimateBackbone solver call
      (directory.join FileNames.weakPlanOutput) budget =
        solver call budget >>= readEstimate (directory.join FileNames.weakPlanOutput) :=
    fun _ _ => rfl
  simp only [findHints, searchWeakPlan, weakPlanCall, useWeakReply, budget, hestimate, during,
    mapError_bind, bind_assoc, pure_bind]

theorem forbidUndo_eq :
    forbidUndo s solver directory instanceFile deadline =
      (match s.constraints.undoProgram with
      | none => return []
      | some program => do
        let program ← Workspace.locate program
        let world ← get
        let run ← Job.during .detectingUndo
          (solver (undoCall directory instanceFile program) (deadline.remaining world.clock))
        useUndoReply s directory run) := by
  have hdetect : ∀ call budget, detectUndo solver call
      (directory.join FileNames.undoOutput) budget s.constraints.undoByType =
        solver call budget >>=
          readUndo (directory.join FileNames.undoOutput) s.constraints.undoByType :=
    fun _ _ => rfl
  rw [forbidUndo]
  cases s.constraints.undoProgram with
  | none => rfl
  | some program =>
    simp only [undoCall, useUndoReply, budget, hdetect, during, mapError_bind, bind_assoc,
      pure_bind]

theorem searchController_eq (hints : Hints) :
    searchController s solver providers directory instanceFile task deadline hints = (do
      let plan ← planSearch s solver providers directory instanceFile task deadline hints
      let outcome ← Job.asTrouble (Search.sizes solver plan hints.sizes deadline)
      let check ← checkSolution s directory outcome
      return { outcome, backbone := hints.backbone, check }) := by
  simp only [searchController, planSearch, clean, gather, bind_assoc, pure_bind]

theorem solve_eq :
    solve s solver providers = (do
      let start ← get
      let (directory, task) ← opening s
      let findings ←
        if task.goalHoldsInitially then pure { outcome := .trivial }
        else synthesize s solver providers directory task
      return reportOn start.clock task findings (← get).clock) := by
  simp only [solve, opening, reportOn, bind_assoc, pure_bind]

end Parts

/-! ### What the steps end with -/

/-- The output gives no weak plan. -/
def NoPlan (text : String) : Prop :=
  ∃ out, readOutput text = .ok out ∧ Backbone.ofOutput out = .ok ⟨[]⟩

/-- What is concluded from the reply to the call for a weak plan. -/
inductive Concludes (s : Settings) (directory : Path) :
    SolverRun → SolveOutcome ⊕ Hints → Prop
  | timedOut (text : String) :
    Concludes s directory (.timedOut text) (.inl (.timedOut s.solver.sizes.min))
  | unsolvable {text : String} (hnone : NoPlan text) :
    Concludes s directory (.finished text) (.inl .unsolvable)
  | found {text : String} {out : SolverOutput} {b : Backbone} (hread : readOutput text = .ok out)
    (hplan : Backbone.ofOutput out = .ok b) (hne : b.steps ≠ []) :
    Concludes s directory (.finished text)
      (.inr (Hints.ofBackbone s b.length
        (if s.backbone.sizeOnly then [] else [directory.join FileNames.backbone])))

theorem readEstimate_returns {world after : World σ} {file : Path} {run : SolverRun}
    {estimate : BackboneEstimate} (h : Returns (readEstimate file run) world estimate after) :
    (∃ text, run = .timedOut text ∧ estimate = .timedOut) ∨
      ∃ text out b, run = .finished text ∧ readOutput text = .ok out ∧
        Backbone.ofOutput out = .ok b ∧ estimate = BackboneEstimate.ofBackbone b := by
  obtain ⟨_, between, -, h⟩ := returns_bind.mp h
  cases run with
  | timedOut text =>
    obtain ⟨rfl, -⟩ := returns_pure.mp h
    exact .inl ⟨text, rfl, rfl⟩
  | finished text =>
    obtain ⟨out, between, hread, h⟩ := returns_bind.mp h
    obtain ⟨b, between, hplan, h⟩ := returns_bind.mp h
    obtain ⟨rfl, -⟩ := returns_pure.mp h
    exact .inr ⟨text, out, b, rfl, (returns_ofExcept.mp hread).1, (returns_ofExcept.mp hplan).1,
      rfl⟩

theorem useWeakReply_returns {world after : World σ} {s : Settings} {directory : Path}
    {run : SolverRun} {found : SolveOutcome ⊕ Hints}
    (h : Returns (useWeakReply s directory run) world found after) :
    Concludes s directory run found := by
  obtain ⟨estimate, between, hestimate, h⟩ := returns_bind.mp h
  obtain ⟨text, rfl, rfl⟩ | ⟨text, out, b, rfl, hread, hplan, rfl⟩ :=
    readEstimate_returns (returns_during.mp hestimate)
  · obtain ⟨rfl, -⟩ := returns_pure.mp h
    exact .timedOut text
  rw [BackboneEstimate.ofBackbone] at h
  split at h
  · next hempty =>
    obtain ⟨_, last, -, h⟩ := returns_bind.mp h
    obtain ⟨rfl, -⟩ := returns_pure.mp h
    obtain ⟨steps⟩ := b
    obtain rfl : steps = [] := hempty
    exact .unsolvable ⟨out, hread, hplan⟩
  · next hne =>
    have hfound : Concludes s directory (.finished text) _ := .found hread hplan hne
    rw [useEstimate] at h
    split at h
    · next hsize =>
      obtain ⟨rfl, -⟩ := returns_pure.mp h
      rwa [if_pos hsize] at hfound
    · next hsize =>
      obtain ⟨_, last, -, h⟩ := returns_bind.mp h
      obtain ⟨rfl, -⟩ := returns_pure.mp h
      rwa [if_neg hsize] at hfound

theorem write_returns_iff {world after : World σ} {directory path : Path} {file : ConstraintFile} :
    Returns (file.write directory) world path after ↔
      ∃ tree, world.files.write (file.pathIn directory) file.contents = .ok tree ∧
        path = file.pathIn directory ∧ after = { world with files := tree } := by
  rw [ConstraintFile.write, returns_bind]
  constructor
  · rintro ⟨_, between, hwrite, h⟩
    obtain ⟨tree, htree, rfl⟩ := returns_change.mp (returns_asFailure.mp hwrite)
    obtain ⟨rfl, rfl⟩ := returns_pure.mp h
    exact ⟨tree, htree, rfl, rfl⟩
  · rintro ⟨tree, htree, rfl, rfl⟩
    exact ⟨(), _, returns_asFailure.mpr (returns_change.mpr ⟨tree, htree, rfl⟩),
      returns_pure.mpr ⟨rfl, rfl⟩⟩

theorem useUndoReply_returns {world after : World σ} {s : Settings} {directory : Path}
    {run : SolverRun} {paths : List Path}
    (h : Returns (useUndoReply s directory run) world paths after) :
    paths = [directory.join (FileNames.undoConstraints ++ ".lp")] := by
  obtain ⟨file, between, hfile, h⟩ := returns_bind.mp h
  obtain ⟨path, between, hwrite, h⟩ := returns_bind.mp h
  obtain ⟨rfl, -⟩ := returns_pure.mp h
  obtain ⟨_, between, -, hfile⟩ := returns_bind.mp (returns_during.mp hfile)
  obtain ⟨out, between, -, hfile⟩ := returns_bind.mp hfile
  obtain ⟨rfl, -⟩ := returns_pure.mp hfile
  obtain ⟨tree, -, rfl, -⟩ := write_returns_iff.mp (returns_asTrouble.mp hwrite)
  rfl

theorem clean_returns {world after : World σ} {s : Settings} {directory model : Path}
    (h : Returns (clean s directory) world model after) :
    ∃ name, s.solver.controllerModel.fileName? = some name ∧ model = directory.join name := by
  obtain ⟨_, between, -, h⟩ := returns_bind.mp h
  rw [Workspace.copyProgram] at h
  split at h
  · exact absurd h not_returns_throw
  · next name hname =>
    obtain ⟨_, between, -, h⟩ := returns_bind.mp h
    obtain ⟨rfl, -⟩ := returns_pure.mp h
    exact ⟨name, hname, rfl⟩

/-- The paths of programs that are numbered from `index` on. -/
def numberedPaths (directory : Path) (index : Nat) (files : List ConstraintFile) : List Path :=
  (files.zipIdx index).map fun entry => (entry.1.numbered entry.2).pathIn directory

theorem numberedPaths_append {directory : Path} {index : Nat} {files more : List ConstraintFile} :
    numberedPaths directory index (files ++ more) =
      numberedPaths directory index files ++ numberedPaths directory (index + files.length) more := by
  rw [numberedPaths, List.zipIdx_append, List.map_append]
  rfl

/-- The programs in the files of the settings. -/
def Loaded (s : Settings) (static : List ConstraintFile) : Prop :=
  List.Forall₂ (fun path file => path.fileStem? = some file.name) s.constraints.files static

/-- What the providers have given for the task, one after the other. -/
def Provided (providers : List (ConstraintProvider σ)) (task : Task)
    (provided : List (List ConstraintFile)) : Prop :=
  List.Forall₂ (fun provider files => ∃ before after, Returns (provider task) before files after)
    providers provided

theorem writeNumbered_returns {world after : World σ} {directory : Path} {index : Nat}
    {files : List ConstraintFile} {paths : List Path}
    (h : Returns (ConstraintFile.writeNumbered directory index files) world paths after) :
    paths = numberedPaths directory index files := by
  induction files generalizing index world after paths with
  | nil =>
    obtain ⟨rfl, -⟩ := returns_pure.mp h
    rfl
  | cons file files ih =>
    obtain ⟨path, between, hwrite, h⟩ := returns_bind.mp h
    obtain ⟨rest, last, hrest, h⟩ := returns_bind.mp h
    obtain ⟨rfl, -⟩ := returns_pure.mp h
    obtain ⟨tree, -, rfl, -⟩ := write_returns_iff.mp hwrite
    rw [ih hrest, numberedPaths, numberedPaths, List.zipIdx_cons, List.map_cons]

theorem load_returns_iff {world after : World σ} {path : Path} {file : ConstraintFile} :
    Returns (ConstraintFile.load path) world file after ↔
      (path.fileStem? = some file.name ∧ world.files.read path = .ok file.contents) ∧
        world = after := by
  rw [ConstraintFile.load, returns_bind]
  constructor
  · rintro ⟨contents, between, hquery, h⟩
    obtain ⟨hread, rfl⟩ := returns_query.mp (returns_asFailure.mp hquery)
    split at h
    · next name hname =>
      obtain ⟨rfl, rfl⟩ := returns_pure.mp h
      exact ⟨⟨hname, hread⟩, rfl⟩
    · exact absurd h not_returns_throw
  · rintro ⟨⟨hname, hread⟩, rfl⟩
    refine ⟨file.contents, world, returns_asFailure.mpr (returns_query.mpr ⟨hread, rfl⟩), ?_⟩
    rw [hname]
    exact returns_pure.mpr ⟨rfl, rfl⟩

theorem loadAll_returns_iff {world after : World σ} {paths : List Path}
    {files : List ConstraintFile} :
    Returns (ConstraintFile.loadAll paths) world files after ↔
      List.Forall₂ (fun path file => path.fileStem? = some file.name ∧
        world.files.read path = .ok file.contents) paths files ∧ world = after := by
  induction paths generalizing files with
  | nil =>
    rw [ConstraintFile.loadAll, returns_pure, List.forall₂_nil_left_iff, eq_comm]
  | cons path paths ih =>
    rw [ConstraintFile.loadAll, returns_bind]
    constructor
    · rintro ⟨file, between, hfile, h⟩
      obtain ⟨rest, last, hrest, h⟩ := returns_bind.mp h
      obtain ⟨rfl, rfl⟩ := returns_pure.mp h
      obtain ⟨hload, rfl⟩ := load_returns_iff.mp hfile
      obtain ⟨hfiles, rfl⟩ := ih.mp hrest
      exact ⟨.cons hload hfiles, rfl⟩
    · rintro ⟨h, rfl⟩
      cases h with
      | cons hload hfiles =>
        exact ⟨_, world, load_returns_iff.mpr ⟨hload, rfl⟩,
          returns_bind.mpr ⟨_, world, ih.mpr ⟨hfiles, rfl⟩, returns_pure.mpr ⟨rfl, rfl⟩⟩⟩

theorem writeConstraints_returns {world after : World σ} {directory : Path} {task : Task}
    {index : Nat} {providers : List (ConstraintProvider σ)} {paths : List Path}
    (h : Returns (Workspace.writeConstraints directory task index providers) world paths after) :
    ∃ provided, Provided providers task provided ∧
      paths = numberedPaths directory index provided.flatten := by
  induction providers generalizing index world after paths with
  | nil =>
    obtain ⟨rfl, -⟩ := returns_pure.mp h
    exact ⟨[], .nil, rfl⟩
  | cons provider providers ih =>
    obtain ⟨files, between, hfiles, h⟩ := returns_bind.mp h
    obtain ⟨written, last, hwrite, h⟩ := returns_bind.mp h
    obtain ⟨rest, ending, hrest, h⟩ := returns_bind.mp h
    obtain ⟨rfl, -⟩ := returns_pure.mp h
    obtain ⟨provided, hprovided, rfl⟩ := ih hrest
    obtain rfl := writeNumbered_returns hwrite
    exact ⟨files :: provided, .cons ⟨world, between, hfiles⟩ hprovided,
      by rw [List.flatten_cons, numberedPaths_append]⟩

/-- The programs of the settings come first, then those of the providers. -/
theorem gather_returns {world after : World σ} {s : Settings} {directory : Path} {task : Task}
    {providers : List (ConstraintProvider σ)} {paths : List Path}
    (h : Returns (gather s providers directory task) world paths after) :
    ∃ static provided, Loaded s static ∧ Provided providers task provided ∧
      paths = numberedPaths directory 1 (static ++ provided.flatten) := by
  obtain ⟨provided, hprovided, rfl⟩ := writeConstraints_returns h
  cases hprovided with
  | @cons _ static _ provided hstatic hprovided =>
    obtain ⟨before, between, hload⟩ := hstatic
    obtain ⟨hloaded, -⟩ := loadAll_returns_iff.mp hload
    exact ⟨static, provided, hloaded.imp fun _ _ => And.left, hprovided, by rw [List.flatten_cons]⟩

end Synthesis

end StrongCyclic
