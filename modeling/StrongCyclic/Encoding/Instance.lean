import StrongCyclic.Encoding.Line
import StrongCyclic.Planning.Task

/-!
The instance of a planning task: the lines that describe its variables, mutex groups, initial state,
goal and operators to the solver. An operator is described by the precondition of its first outcome
and by the add and delete list of every outcome.
-/

namespace StrongCyclic.Encoding

/-- Which values of the initial state are written: those that hold, those that do not, or both. -/
inductive InitialValues
  | positive
  | negative
  | both
deriving DecidableEq, Repr, Inhabited

/-- What the instance is for: to search for a controller, whose goal state has to satisfy the goal,
or to search for a weak plan. -/
inductive Purpose
  | controller
  | weakPlan
deriving DecidableEq, Repr, Inhabited

/-- What may be left out of an instance. -/
structure Options where
  initialValues : InitialValues := .both
  notAffects : Bool := false
  precedence : Bool := true
deriving DecidableEq, Repr, Inhabited

/-- The variables and their values. -/
def variableLines (vars : List Variable) : List Line :=
  .variableRange (vars.length - 1) ::
    (vars.mapIdx fun var v => Line.variableValues var (v.domainSize - 1)) ++ [.blank]

/-- The mutex groups that exclude something: those with at least two variables. -/
def mutexSets (t : Task) : List (List (Nat × Nat)) :=
  (t.mutexes.map State.pairs).filter (1 < ·.length)

/-- All pairs of each variable, of which a state has one. -/
def variableSets (t : Task) : List (List (Nat × Nat)) :=
  t.vars.mapIdx fun var v => (List.range v.domainSize).map fun value => (var, value)

/-- The lines of sets of pairs, numbered from `group` on. -/
def mutexLinesFrom (group : Nat) : List (List (Nat × Nat)) → List Line
  | [] => []
  | pairs :: sets =>
    .mutexGroup group :: (pairs.map fun (var, value) => Line.mutex group var value) ++
      mutexLinesFrom (group + 1) sets

/-- The mutex groups of the task and of its variables. -/
def mutexLines (t : Task) : List Line :=
  mutexLinesFrom 1 (mutexSets t ++ variableSets t) ++ [.blank]

/-- The values that hold in the initial state. -/
def positiveLines (t : Task) : List Line :=
  (t.initial.pairs.map fun (var, value) => Line.holdsInitially var value) ++ [.blank]

/-- The values that do not hold in the initial state. -/
def negativeLines (t : Task) : List Line :=
  (t.initial.pairs.flatMap fun (var, value) =>
    ((List.range (t.domainSizes.getD var 0)).filter (· ≠ value)).map (Line.failsInitially var)) ++
    [.blank]

/-- The initial state. -/
def initialLines (t : Task) : InitialValues → List Line
  | .positive => positiveLines t
  | .negative => negativeLines t
  | .both => positiveLines t ++ negativeLines t

/-- The goal. -/
def goalLines (t : Task) : Purpose → List Line
  | .controller =>
    (t.goal.pairs.flatMap fun (var, value) => [.holdsAtGoal var value, .goal var value]) ++ [.blank]
  | .weakPlan => (t.goal.pairs.map fun (var, value) => Line.goal var value) ++ [.blank]

/-- The variables that an effect sets or deletes a value of. -/
def affectedVariables (s : Strips) : List Nat :=
  s.add.pairs.map Prod.fst ++ s.deleted.map Prod.fst

/-- An effect, which belongs to the outcome with the given tag. -/
def effectLines (numVariables : Nat) (notAffects : Bool) (name tag : String) (s : Strips) :
    List Line :=
  (s.add.pairs.map fun (var, value) => Line.add name tag var value) ++
    (s.deleted.map fun (var, value) => Line.del name tag var value) ++
    if notAffects then
      ((List.range numVariables).filter (· ∉ affectedVariables s)).map (Line.notAffects name tag)
    else []

/-- An outcome of an operator. -/
def outcomeLines (numVariables : Nat) (notAffects : Bool) (name : String) (index : Nat)
    (outcome : Action) : List Line :=
  .actionEffect name (outcomeTag index) ::
    match outcome.strips.head? with
    | some s => effectLines numVariables notAffects name (outcomeTag index) s
    | none => []

/-- An operator, apart from its type. -/
def operatorLines (numVariables : Nat) (notAffects : Bool) (name : String) (first : Action)
    (outcomes : List Action) : List Line :=
  .typedAction first.header.stem name :: .action name ::
    (first.precondition.pairs.map fun (var, value) => Line.precondition name var value) ++
    .numEffects name outcomes.length ::
    (outcomes.mapIdx (outcomeLines numVariables notAffects name)).flatten

/-- The operators; a type is announced in front of the first operator that has it. -/
def operatorsFrom (numVariables : Nat) (notAffects : Bool) (announced : List String) :
    List (String × List Action) → List Line
  | [] => []
  | (_, []) :: groups => operatorsFrom numVariables notAffects announced groups
  | (name, first :: rest) :: groups =>
    let type := first.header.stem
    (if type ∈ announced then [] else [.actionType type]) ++
      operatorLines numVariables notAffects name first (first :: rest) ++
      operatorsFrom numVariables notAffects (type :: announced) groups

/-- The order of the tags. -/
def precedenceLines (most : Nat) : List Line :=
  (List.range (most - 1)).map fun index => .precedence (outcomeTag index) (outcomeTag (index + 1))

/-- The operators and the order of their outcomes. -/
def actionLines (t : Task) (options : Options) : List Line :=
  operatorsFrom t.vars.length options.notAffects [] t.groups ++
    (if options.precedence then precedenceLines t.maxOutcomes else []) ++
    [.maxOutcomes t.maxOutcomes, .blank]

/-- The lines of an instance. -/
def instanceLines (t : Task) (options : Options) (purpose : Purpose) : List Line :=
  variableLines t.vars ++ mutexLines t ++ initialLines t options.initialValues ++
    goalLines t purpose ++ actionLines t options

/-- The text of an instance. -/
def instanceText (t : Task) (options : Options) (purpose : Purpose) : String :=
  Text.unlines ((instanceLines t options purpose).map Line.text)

/-- The size of an instance. -/
structure Statistics where
  facts : Nat
  variableCount : Nat
  mutexGroups : Nat
  actions : Nat
  maxOutcomes : Nat
deriving DecidableEq, Repr, Inhabited

/-- The size of an instance of the task, given its text. -/
def statistics (t : Task) (text : String) : Statistics :=
  { facts := ((Text.lines text).filter (Text.trim · ≠ "")).length
    variableCount := t.vars.length
    mutexGroups := (mutexSets t).length + t.vars.length
    actions := t.groups.length
    maxOutcomes := t.maxOutcomes }

/-- The statistics as lines of a report. -/
def Statistics.text (s : Statistics) : String :=
  Text.unlines
    ["Encoding Statistics:",
      "  Facts and rules: " ++ toString s.facts,
      "  Variables: " ++ toString s.variableCount,
      "  Mutex groups: " ++ toString s.mutexGroups,
      "  Actions: " ++ toString s.actions,
      "  Max outcomes: " ++ toString s.maxOutcomes]

end StrongCyclic.Encoding
