import StrongCyclic.Run.FileNames
import StrongCyclic.Guidance.Detection

/-!
The search for the size of a controller. The solver is asked for controllers of increasing size
until it finds one, runs out of time or the largest size is passed. Sizes are 64-bit words, and the
sum that gives the next one may be none: the search then ends in a crash, also where the sum would
only have been compared with the largest size.
-/

namespace StrongCyclic

/-- The sizes to try: from the least one in steps up to the largest one. -/
structure SizeRange where
  min : Nat
  max : Nat
  step : Nat
deriving DecidableEq, Repr, Inhabited

namespace SizeRange

/-- The size after a given one; a step is at least one. -/
def next (range : SizeRange) (size : Nat) : Except Crash Nat :=
  Word.add size (Nat.max range.step 1)

theorem next_eq_ok {range : SizeRange} {size next : Nat} :
    range.next size = .ok next ↔
      next = size + Nat.max range.step 1 ∧ size + Nat.max range.step 1 < Text.wordLimit :=
  Word.add_eq_ok

theorem next_eq_error {range : SizeRange} {size : Nat} {cause : Crash} :
    range.next size = .error cause ↔
      Text.wordLimit ≤ size + Nat.max range.step 1 ∧ cause = .overflow :=
  Word.add_eq_error

/-- A size that is a word is followed by a larger one, so there are only so many. -/
theorem wordLimit_sub_lt_of_next {range : SizeRange} {size next : Nat}
    (h : range.next size = .ok next) : Text.wordLimit - next < Text.wordLimit - size := by
  obtain ⟨rfl, hlt⟩ := next_eq_ok.mp h
  have hstep : 1 ≤ Nat.max range.step 1 := Nat.le_max_right _ _
  omega

/-- Whether a size is past the largest one; the least size is always tried. -/
def isPast (range : SizeRange) (size : Nat) : Bool :=
  size ≠ range.min && range.max < size

end SizeRange

/-- How the work on a problem ends. -/
inductive SolveOutcome
  /-- The goal holds in the initial state. -/
  | trivial
  /-- There is a controller of a size, described in an output file. -/
  | solved (size states : Nat) (output : Path)
  /-- There is no weak plan. -/
  | unsolvable
  /-- There is no controller up to the largest size. -/
  | exhausted (max : Nat)
  /-- The time ran out at a size. -/
  | timedOut (size : Nat)
deriving DecidableEq, Repr, Inhabited

namespace SolveOutcome

/-- Whether the problem has been solved. -/
def isSolved : SolveOutcome → Bool
  | trivial => true
  | solved _ _ _ => true
  | _ => false

/-- The outcome in words. -/
def text : SolveOutcome → String
  | trivial => "goal holds in the initial state (1 state)"
  | solved size states _ =>
    "solution found with numStates=" ++ toString size ++ " (" ++ toString states ++
      " controller states)"
  | unsolvable => "no solution exists (no weak plan)"
  | exhausted max => "no solution with at most " ++ toString max ++ " states"
  | timedOut size => "timed out with numStates=" ++ toString size

end SolveOutcome

/-- What every attempt has in common. -/
structure SearchPlan where
  controllerModel : Path
  instanceFile : Path
  /-- Further programs, in the order in which they are passed. -/
  constraints : List Path
  args : List String
  directory : Path
deriving DecidableEq, Repr, Inhabited

namespace SearchPlan

/-- The call for a controller of a size. -/
def call (plan : SearchPlan) (size : Nat) : SolverCall :=
  { inputs := plan.controllerModel :: plan.instanceFile :: plan.constraints
    args := "-c" :: ("numStates=" ++ toString size) :: plan.args
    directory := plan.directory }

/-- The file that keeps the output of the attempt at a size. -/
def outputFile (plan : SearchPlan) (size : Nat) : Path :=
  plan.directory.join (FileNames.attemptOutput size)

end SearchPlan

namespace Search

variable {σ : Type}

/-- Adds the mark that the time ran out to an output file. -/
def markTimedOut (file : Path) (deadline : Deadline) : Job σ Failure Unit :=
  Job.asFailure (Job.change (·.append file (timedOutMark ++ deadline.limitText ++ ".\n")))

/-- One attempt; without a result the search goes on. -/
def attempt (solver : Solver σ) (plan : SearchPlan) (deadline : Deadline) (size : Nat) :
    Job σ Failure (Option SolveOutcome) := do
  let file := plan.outputFile size
  let now := (← get).clock
  if deadline.isExpired now then
    markTimedOut file deadline
    return some (.timedOut size)
  let run ← solver (plan.call size) (deadline.remaining now)
  Job.asFailure (Job.change (·.write file run.stdout))
  if run.isTimedOut then
    markTimedOut file deadline
    return some (.timedOut size)
  let out ← Job.ofExcept (readOutput run.stdout)
  if out.isSatisfiable then
    let states ← Job.ofExcept ((Word.add size 1).mapError Failure.crash)
    return some (.solved size states file)
  return none

/-- Tries sizes from the given one on. -/
def sizesFrom (solver : Solver σ) (plan : SearchPlan) (range : SizeRange) (deadline : Deadline)
    (size : Nat) : Job σ Failure SolveOutcome := do
  if range.isPast size then return .exhausted range.max
  match ← attempt solver plan deadline size with
  | some outcome => return outcome
  | none =>
    match _hnext : range.next size with
    | .ok next => sizesFrom solver plan range deadline next
    | .error cause => throw (.crash cause)
termination_by Text.wordLimit - size
decreasing_by exact SizeRange.wordLimit_sub_lt_of_next _hnext

/-- Tries the sizes of a range. -/
def sizes (solver : Solver σ) (plan : SearchPlan) (range : SizeRange) (deadline : Deadline) :
    Job σ Failure SolveOutcome :=
  sizesFrom solver plan range deadline range.min

end Search

end StrongCyclic
