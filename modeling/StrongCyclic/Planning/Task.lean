import StrongCyclic.Collection.Keyed
import StrongCyclic.Collection.Sorted
import StrongCyclic.Planning.Transition

/-!
Planning tasks. The actions are indexed twice: by their own key, where the last action with a key
counts, and by the key of their operator, where the outcomes stand in the order of their numbers.
-/

namespace StrongCyclic

/-- A planning task over finite-domain variables. -/
structure Task where
  vars : List Variable
  initial : State
  goal : State
  mutexes : List State
  /-- The actions by their key. -/
  actions : List (String × Action)
  /-- The outcomes of each operator by its key. -/
  groups : List (String × List Action)
deriving DecidableEq, Repr, Inhabited

namespace Task

/-- The last action of each key, in the order of the first appearance of the keys. -/
def indexByKey (actions : List Action) : List (String × Action) :=
  actions.foldl (fun index a => Keyed.insert a.key a index) []

/-- The actions of each operator, in the order of the first appearance of the operators. -/
def collectByOperator (actions : List Action) : List (String × List Action) :=
  actions.foldl (fun index a => Keyed.push a.groupKey a index) []

/-- The operators with their outcomes in the order of the outcome numbers. -/
def groupByOperator (actions : List Action) : List (String × List Action) :=
  (collectByOperator actions).map fun (key, outcomes) =>
    (key, Sorted.sortBy Action.outcomeRank outcomes)

/-- The task with the given actions. -/
def ofActions (vars : List Variable) (initial goal : State) (mutexes : List State)
    (actions : List Action) : Task :=
  { vars, initial, goal, mutexes
    actions := indexByKey actions
    groups := groupByOperator actions }

/-- The number of values of each variable. -/
def domainSizes (t : Task) : List Nat :=
  t.vars.map Variable.domainSize

/-- The action with a key. -/
def action? (t : Task) (key : String) : Option Action :=
  t.actions.lookup key

/-- The outcomes of the operator with a key. -/
def outcomes? (t : Task) (key : String) : Option (List Action) :=
  t.groups.lookup key

/-- The operator with a key as one action with several effects. -/
def nondeterministic? (t : Task) (key : String) : Option Action :=
  (t.outcomes? key).bind Action.merge?

/-- The largest number of outcomes of an operator, and one if there is no operator. -/
def maxOutcomes (t : Task) : Nat :=
  t.groups.foldl (fun most group => max most group.2.length) 1

/-- Whether the goal holds in the initial state. -/
def goalHoldsInitially (t : Task) : Bool :=
  t.initial.entails t.goal

/-- The size of a task. -/
structure Statistics where
  variableCount : Nat
  groundedActions : Nat
  deterministicOperators : Nat
  nondeterministicOperators : Nat
  maxOutcomes : Nat
  mutexGroups : Nat
  goalSize : Nat
deriving DecidableEq, Repr, Inhabited

/-- The size of a task. -/
def statistics (t : Task) : Statistics :=
  let nondeterministic := (t.groups.filter fun group => 1 < group.2.length).length
  { variableCount := t.vars.length
    groundedActions := t.actions.length
    deterministicOperators := t.groups.length - nondeterministic
    nondeterministicOperators := nondeterministic
    maxOutcomes := t.maxOutcomes
    mutexGroups := t.mutexes.length
    goalSize := t.goal.definedCount }

/-- The statistics as lines of a report. -/
def Statistics.text (s : Statistics) : String :=
  Text.unlines
    ["Model Statistics:",
      "  Variables: " ++ toString s.variableCount,
      "  Grounded actions: " ++ toString s.groundedActions,
      "  Deterministic operators: " ++ toString s.deterministicOperators,
      "  Non-deterministic operators: " ++ toString s.nondeterministicOperators,
      "  Max outcomes: " ++ toString s.maxOutcomes,
      "  Mutex groups: " ++ toString s.mutexGroups,
      "  Goal size: " ++ toString s.goalSize]

end Task

end StrongCyclic
