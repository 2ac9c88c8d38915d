import StrongCyclic.Proofs.Run.Recording
import StrongCyclic.Proofs.Synthesis.Steps

/-!
The parts of a run that make no calls. Preparing the directory, reading and writing its files and the
final check leave the record of a solver alone, and so do providers of constraints: each is the same
job with a record as without.
-/

namespace StrongCyclic

open Job

variable {σ : Type}

/-- The provider in a world with a record, which it leaves alone. -/
def ConstraintProvider.withRecord (provider : ConstraintProvider σ) :
    ConstraintProvider (Recorded σ) :=
  fun task => (provider task).withRecord

namespace Workspace

@[simp]
theorem withRecord_locate (path : Path) :
    (locate path : Job σ Trouble Path).withRecord = locate path := by
  simp [locate]

@[simp]
theorem withRecord_prepare (path : Path) :
    (prepare path : Job σ Trouble Path).withRecord = prepare path := by
  simp [prepare]

@[simp]
theorem withRecord_isSame (source target : Path) :
    (isSame source target : Job σ Trouble Bool).withRecord = isSame source target := by
  simp only [isSame, withRecord_bind, withRecord_inspect]
  congr 1
  funext present
  split <;> simp

@[simp]
theorem withRecord_copyInto (source target : Path) :
    (copyInto source target : Job σ Trouble Unit).withRecord = copyInto source target := by
  simp only [copyInto, withRecord_bind, withRecord_isSame]
  congr 1
  funext same
  split <;> simp

@[simp]
theorem withRecord_copyProgram (program directory : Path) :
    (copyProgram program directory : Job σ Trouble Path).withRecord =
      copyProgram program directory := by
  rw [copyProgram, copyProgram]
  split <;> simp

end Workspace

namespace ConstraintFile

@[simp]
theorem withRecord_write (file : ConstraintFile) (directory : Path) :
    (file.write directory : Job σ Failure Path).withRecord = file.write directory := by
  simp [write]

@[simp]
theorem withRecord_load (path : Path) :
    (load path : Job σ Failure ConstraintFile).withRecord = load path := by
  simp only [load, withRecord_bind, withRecord_asFailure, withRecord_query]
  congr 1
  funext contents
  split <;> simp

@[simp]
theorem withRecord_loadAll (paths : List Path) :
    (loadAll paths : Job σ Failure (List ConstraintFile)).withRecord = loadAll paths := by
  induction paths with
  | nil => rfl
  | cons path paths ih => simp [loadAll, ih]

@[simp]
theorem withRecord_writeNumbered (directory : Path) (index : Nat) (files : List ConstraintFile) :
    (writeNumbered directory index files : Job σ Failure (List Path)).withRecord =
      writeNumbered directory index files := by
  induction files generalizing index with
  | nil => rfl
  | cons file files ih => simp [writeNumbered, ih]

end ConstraintFile

@[simp]
theorem Workspace.withRecord_writeConstraints (directory : Path) (task : Task) (index : Nat)
    (providers : List (ConstraintProvider σ)) :
    (writeConstraints directory task index providers).withRecord =
      writeConstraints directory task index (providers.map ConstraintProvider.withRecord) := by
  induction providers generalizing index with
  | nil => rfl
  | cons provider providers ih => simp [writeConstraints, ih, ConstraintProvider.withRecord]

@[simp]
theorem withRecord_loadTask (path : Path) :
    (loadTask path : Job σ Trouble Task).withRecord = loadTask path := by
  simp [loadTask]

namespace RunDirectory

@[simp]
theorem withRecord_lastOutput (directory : Path) :
    (lastOutput directory : Job σ Trouble Path).withRecord = lastOutput directory := by
  simp only [lastOutput, withRecord_bind, withRecord_duringFile, withRecord_query]
  congr 1
  funext names
  split <;> simp

@[simp]
theorem withRecord_writeController (directory : Path) (c : Controller) (vars : List Variable) :
    (writeController directory c vars : Job σ Trouble Unit).withRecord =
      writeController directory c vars := by
  simp [writeController]

@[simp]
theorem withRecord_rebuild (directory : Path) :
    (rebuild directory : Job σ Trouble (Option (Controller × Task))).withRecord =
      rebuild directory := by
  simp only [rebuild, withRecord_bind, withRecord_lastOutput, withRecord_duringFile,
    withRecord_query]
  congr 1
  funext file
  congr 1
  funext text
  split <;> simp

@[simp]
theorem withRecord_check (directory : Path) :
    (check directory : Job σ Trouble RunCheck).withRecord = check directory := by
  simp only [check, withRecord_bind, withRecord_rebuild]
  congr 1
  funext found
  split <;> simp

@[simp]
theorem withRecord_removeAll (directory : Path) (names : List String) :
    (removeAll directory names : Job σ Failure Unit).withRecord = removeAll directory names := by
  induction names with
  | nil => rfl
  | cons name names ih => simp [removeAll, ih]

@[simp]
theorem withRecord_removeOutputs (directory : Path) :
    (removeOutputs directory : Job σ Failure Nat).withRecord = removeOutputs directory := by
  simp [removeOutputs]

end RunDirectory

namespace Synthesis

@[simp]
theorem withRecord_writeInstance (s : Settings) (task : Task) (purpose : Encoding.Purpose)
    (file : Path) :
    (writeInstance s task purpose file : Job σ Failure Unit).withRecord =
      writeInstance s task purpose file := by
  simp [writeInstance]

@[simp]
theorem withRecord_writeFile (file : Path) (text : String) :
    (writeFile file text : Job σ Trouble Unit).withRecord = writeFile file text := by
  simp [writeFile]

@[simp]
theorem withRecord_locateOption (path : Option Path) :
    (locateOption path : Job σ Trouble (List Path)).withRecord = locateOption path := by
  cases path <;> simp [locateOption]

@[simp]
theorem withRecord_useEstimate (s : Settings) (directory : Path) (estimate : BackboneEstimate) :
    (useEstimate s directory estimate : Job σ Trouble (SolveOutcome ⊕ Hints)).withRecord =
      useEstimate s directory estimate := by
  cases estimate with
  | unsolvable => simp [useEstimate]
  | timedOut => rfl
  | found b =>
    rw [useEstimate, useEstimate]
    split <;> simp

@[simp]
theorem withRecord_checkSolution (s : Settings) (directory : Path) (outcome : SolveOutcome) :
    (checkSolution s directory outcome : Job σ Trouble (Option RunCheck)).withRecord =
      checkSolution s directory outcome := by
  cases outcome with
  | solved size states output =>
    simp only [checkSolution]
    split
    · simp
    · split <;> simp
  | _ => rfl

/-! ### The steps between the calls -/

@[simp]
theorem withRecord_opening (s : Settings) :
    (opening s : Job σ Trouble (Path × Task)).withRecord = opening s := by
  simp [opening]

@[simp]
theorem withRecord_weakPlanCall (s : Settings) (directory : Path) (task : Task) :
    (weakPlanCall s directory task : Job σ Trouble SolverCall).withRecord =
      weakPlanCall s directory task := by
  simp [weakPlanCall]

@[simp]
theorem withRecord_readEstimate (outputFile : Path) (run : SolverRun) :
    (readEstimate outputFile run : Job σ Failure BackboneEstimate).withRecord =
      readEstimate outputFile run := by
  cases run <;> simp [readEstimate, SolverRun.isTimedOut]

@[simp]
theorem withRecord_useWeakReply (s : Settings) (directory : Path) (run : SolverRun) :
    (useWeakReply s directory run : Job σ Trouble (SolveOutcome ⊕ Hints)).withRecord =
      useWeakReply s directory run := by
  simp [useWeakReply]

@[simp]
theorem withRecord_readUndo (outputFile : Path) (byType : Bool) (run : SolverRun) :
    (readUndo outputFile byType run : Job σ Failure ConstraintFile).withRecord =
      readUndo outputFile byType run := by
  simp [readUndo]

@[simp]
theorem withRecord_useUndoReply (s : Settings) (directory : Path) (run : SolverRun) :
    (useUndoReply s directory run : Job σ Trouble (List Path)).withRecord =
      useUndoReply s directory run := by
  simp [useUndoReply]

@[simp]
theorem withRecord_clean (s : Settings) (directory : Path) :
    (clean s directory : Job σ Trouble Path).withRecord = clean s directory := by
  simp [clean]

theorem withRecord_static (paths : List Path) :
    ConstraintProvider.withRecord (fun _ => ConstraintFile.loadAll paths : ConstraintProvider σ) =
      fun _ => ConstraintFile.loadAll paths :=
  funext fun _ => ConstraintFile.withRecord_loadAll paths

theorem withRecord_gather (s : Settings) (providers : List (ConstraintProvider σ))
    (directory : Path) (task : Task) :
    (gather s providers directory task).withRecord =
      gather s (providers.map ConstraintProvider.withRecord) directory task := by
  rw [gather, Workspace.withRecord_writeConstraints, List.map_cons, withRecord_static, gather]

end Synthesis

end StrongCyclic
