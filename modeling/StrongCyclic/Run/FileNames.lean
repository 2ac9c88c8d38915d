import StrongCyclic.Disk.Path
import StrongCyclic.Text.Numeral
import StrongCyclic.Text.Search

/-!
The names of the files that a run leaves in its directory. The output of the attempt with `n` states
is called `clingo_out_<n>.out`.
-/

namespace StrongCyclic.FileNames

/-- The planning task. -/
def task : String := "output.sas"

/-- The instance for the controller search. -/
def controllerInstance : String := "instance.lp"

/-- The instance for the weak plan search. -/
def weakInstance : String := "instance_weak.lp"

/-- The output of the weak plan search. -/
def weakPlanOutput : String := "weak_plan.out"

/-- The constraints of the backbone. -/
def backbone : String := "backbone.lp"

/-- The mark that there is no weak plan. -/
def unsolvable : String := "unsat.out"

/-- The output of the undo detection. -/
def undoOutput : String := "undo_actions.out"

/-- The name of the undo constraints, without the extension. -/
def undoConstraints : String := "undo_actions"

/-- The controller as a text. -/
def controllerText : String := "controller.out"

/-- The controller as a graph. -/
def controllerGraph : String := "controller.json"

/-- The result of the verification. -/
def verification : String := "verify.out"

/-- The output of the attempt with a number of states. -/
def attemptOutput (size : Nat) : String :=
  "clingo_out_" ++ toString size ++ ".out"

/-- The number of states that an output file belongs to. -/
def attemptSize? (name : String) : Option Nat :=
  ((Text.afterPrefix? "clingo_out_" name).bind (Text.beforeSuffix? ".out")).bind Text.natural?

end StrongCyclic.FileNames
