import StrongCyclic.Run.World
import StrongCyclic.Settings.Basic

/-!
The check of settings: the sizes have to make sense, and every file that will be read has to be
there. The first fault counts.
-/

namespace StrongCyclic.Settings

/-- The fault of a range of sizes. -/
def sizeFault? (range : SizeRange) : Option SettingsFault :=
  if range.min = 0 then some .zeroMinimum
  else if range.step = 0 then some .zeroIncrement
  else if range.max < range.min then some (.minimumAboveMaximum range.min range.max)
  else none

/-- The files that will be read, each with what it is. -/
def requiredFiles (s : Settings) : List (String × Path) :=
  [("SAS file", s.taskFile), ("Controller model", s.solver.controllerModel)] ++
    (if s.backbone.enabled then
      ("Weak plan program", s.backbone.weakPlanProgram) ::
        (s.backbone.sequentialKnowledge.map fun path => ("Sequential knowledge file", path)).toList
    else []) ++
    (s.constraints.files.map fun path => ("Constraint file", path)) ++
    (s.constraints.undoProgram.map fun path => ("Undo program", path)).toList

/-- The first of the files that is missing. -/
def missingFile? (tree : FileTree) (files : List (String × Path)) : Option SettingsFault :=
  (files.find? fun (_, path) => !tree.exists? path).map fun (what, path) => .missingFile what path

/-- The first fault of the settings. -/
def fault? (s : Settings) (tree : FileTree) : Option SettingsFault :=
  (sizeFault? s.solver.sizes).or (missingFile? tree s.requiredFiles)

/-- Checks the settings. -/
def check {σ : Type} (s : Settings) : Job σ Failure Unit := do
  match ← Job.inspect s.fault? with
  | some fault => throw (.settings fault)
  | none => return

end StrongCyclic.Settings
