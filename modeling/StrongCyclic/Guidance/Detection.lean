import StrongCyclic.Guidance.Backbone
import StrongCyclic.Guidance.ConstraintFile
import StrongCyclic.Guidance.Undo
import StrongCyclic.Run.FileNames
import StrongCyclic.Solver.Call

/-!
The two calls of the solver that prepare the controller search: the search for a weak plan and the
detection of undo pairs. The output of either is kept in a file before it is read.
-/

namespace StrongCyclic

/-- What the search for a weak plan gives. -/
inductive BackboneEstimate
  | found (backbone : Backbone)
  /-- There is no weak plan and so no controller. -/
  | unsolvable
  | timedOut
deriving DecidableEq, Repr, Inhabited

/-- The output of a solver as a part of library work. -/
def readOutput (text : String) : Except Failure SolverOutput :=
  (SolverOutput.parse text).mapError Failure.answer

/-- The plan of an output; without an answer or without the status that there is one it is empty. -/
def Backbone.ofOutput (out : SolverOutput) : Except Failure Backbone :=
  match out.lastAnswer? with
  | some answer =>
    if out.isSatisfiable then (Backbone.ofAnswer answer).mapError Failure.backbone else .ok ⟨[]⟩
  | none => .ok ⟨[]⟩

/-- What a plan says about the problem. -/
def BackboneEstimate.ofBackbone (b : Backbone) : BackboneEstimate :=
  if b.steps = [] then .unsolvable else .found b

variable {σ : Type}

/-- Searches for a weak plan. -/
def estimateBackbone (solver : Solver σ) (call : SolverCall) (outputFile : Path)
    (budget : Option Duration) : Job σ Failure BackboneEstimate := do
  let run ← solver call budget
  Job.asFailure (Job.change (·.write outputFile run.stdout))
  if run.isTimedOut then return .timedOut
  let out ← Job.ofExcept (readOutput run.stdout)
  let backbone ← Job.ofExcept (Backbone.ofOutput out)
  return BackboneEstimate.ofBackbone backbone

/-- The undo pairs of the last answer. -/
def UndoPair.ofOutput (out : SolverOutput) : List UndoPair :=
  match out.lastAnswer? with
  | some answer => UndoPair.ofAnswer answer
  | none => []

/-- Detects undo pairs and returns the program that forbids them. If the time runs out, the pairs
found so far count. -/
def detectUndo (solver : Solver σ) (call : SolverCall) (outputFile : Path)
    (budget : Option Duration) (byType : Bool) : Job σ Failure ConstraintFile := do
  let run ← solver call budget
  Job.asFailure (Job.change (·.write outputFile run.stdout))
  let out ← Job.ofExcept (readOutput run.stdout)
  return ⟨FileNames.undoConstraints, UndoPair.constraints byType (UndoPair.ofOutput out)⟩

end StrongCyclic
