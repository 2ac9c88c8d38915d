import StrongCyclic.Encoding.Instance
import StrongCyclic.Guidance.Backbone
import StrongCyclic.Search.SizeSearch

/-!
The settings of a run. Every setting has a default, and the command line can override some of them.
-/

namespace StrongCyclic

/-- How the solver is called and which sizes are tried. -/
structure SolverSettings where
  executable : Path := ⟨"clingo"⟩
  /-- Arguments behind the size. -/
  args : List String := []
  /-- The program that describes controllers. -/
  controllerModel : Path := ⟨"asp/controller-fondsat.lp"⟩
  sizes : SizeRange := ⟨1, 100, 1⟩
  /-- The seconds for all calls of the solver. -/
  timeLimit : Option Nat := none
deriving DecidableEq, Repr

/-- Whether and how a weak plan guides the search. -/
structure BackboneSettings where
  enabled : Bool := false
  /-- Only the length of the plan is used. -/
  sizeOnly : Bool := false
  /-- The program that searches for a weak plan. -/
  weakPlanProgram : Path := ⟨"asp/weak_plan.lp"⟩
  sequentialKnowledge : Option Path := none
  style : BackboneStyle := .strict
deriving DecidableEq, Repr

/-- Further constraints on the controller. -/
structure ConstraintSettings where
  /-- Programs that are added as they are. -/
  files : List Path := []
  /-- The program that detects undo pairs. -/
  undoProgram : Option Path := none
  undoByType : Bool := true
deriving DecidableEq, Repr

/-- Where the files of a run go, and what happens to a controller that is found. -/
structure OutputSettings where
  directory : Path := ⟨"output"⟩
  dumpController : Bool := true
  verify : Bool := true
deriving DecidableEq, Repr

/-- The settings of a run. -/
structure Settings where
  taskFile : Path := ⟨"output.sas"⟩
  solver : SolverSettings := {}
  backbone : BackboneSettings := {}
  encoding : Encoding.Options := {}
  constraints : ConstraintSettings := {}
  output : OutputSettings := {}
deriving DecidableEq, Repr

/-- What the command line overrides. -/
structure Overrides where
  taskFile : Option Path := none
  directory : Option Path := none
  min : Option Nat := none
  max : Option Nat := none
  step : Option Nat := none
  timeLimit : Option Nat := none
  backbone : Bool := false
deriving DecidableEq, Repr

namespace Settings

/-- The time for all calls of the solver. -/
def timeLimit (s : Settings) : Option Duration :=
  s.solver.timeLimit.map Duration.ofSeconds

/-- The range of sizes with overrides. -/
def overrideSizes (range : SizeRange) (o : Overrides) : SizeRange :=
  ⟨o.min.getD range.min, o.max.getD range.max, o.step.getD range.step⟩

/-- The settings with overrides. A backbone can be asked for but not be switched off. -/
def override (s : Settings) (o : Overrides) : Settings :=
  { s with
    taskFile := o.taskFile.getD s.taskFile
    solver := { s.solver with
      sizes := overrideSizes s.solver.sizes o
      timeLimit := o.timeLimit.or s.solver.timeLimit }
    backbone := { s.backbone with enabled := s.backbone.enabled || o.backbone }
    output := { s.output with directory := o.directory.getD s.output.directory } }

end Settings

end StrongCyclic
