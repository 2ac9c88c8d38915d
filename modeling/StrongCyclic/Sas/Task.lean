import StrongCyclic.Planning.Task
import StrongCyclic.Sas.Block

/-!
The task that the blocks of a file describe. The last state block and the last goal block count, all
other blocks are kept in their order, and every index is checked against the variables.
-/

namespace StrongCyclic.Sas

open Reader (fail)

/-- Checks that a variable exists and has a value. -/
def checkValue (domainSizes : List Nat) (line var value : Nat) : Except LineFault Unit :=
  match domainSizes[var]? with
  | none => fail line (.unknownVariable var domainSizes.length)
  | some size =>
    if size ≤ value then fail line (.valueOutsideDomain value var size) else .ok ()

/-- Checks the values of an initial state from variable `var` on. -/
def checkValues (domainSizes : List Nat) (line : Nat) : Nat → List Nat → Except LineFault Unit
  | _, [] => .ok ()
  | var, value :: values => do
    checkValue domainSizes line var value
    checkValues domainSizes line (var + 1) values

/-- Checks a list of facts. -/
def checkFacts (domainSizes : List Nat) : List Fact → Except LineFault Unit
  | [] => .ok ()
  | fact :: facts => do
    checkValue domainSizes fact.line fact.var fact.value
    checkFacts domainSizes facts

/-- The partial state of checked facts, the later fact of a variable winning. -/
def stateOfFacts (domainSizes : List Nat) (facts : List Fact) : Except LineFault State := do
  checkFacts domainSizes facts
  return State.ofPairs domainSizes.length (facts.map fun fact => (fact.var, fact.value))

/-- A change whose values lie in the domain of its variable. -/
def checkedChange (domainSizes : List Nat) (change : Change) : Except LineFault ValueChange := do
  checkValue domainSizes change.line change.var change.next
  match slotOfInteger? change.prev with
  | none => fail change.line (.invalidPrevious change.prev)
  | some none => return ⟨change.var, none, change.next⟩
  | some (some prev) =>
    checkValue domainSizes change.line change.var prev
    return ⟨change.var, some prev, change.next⟩

/-- The action of an operator. -/
def Operator.action (domainSizes : List Nat) (op : Operator) : Except LineFault Action := do
  let precondition ← stateOfFacts domainSizes op.prevail
  let changes ← op.changes.mapM (checkedChange domainSizes)
  return Action.ofChanges op.header precondition changes op.cost domainSizes

/-- The variables that the blocks declare. -/
def variablesOf (blocks : List Block) : List Variable :=
  blocks.filterMap fun
    | .variable v => some v
    | _ => none

/-- The operators of the blocks. -/
def operatorsOf (blocks : List Block) : List Operator :=
  blocks.filterMap fun
    | .operator op => some op
    | _ => none

/-- The mutex groups of the blocks. -/
def mutexesOf (blocks : List Block) : List (List Fact) :=
  blocks.filterMap fun
    | .mutex facts => some facts
    | _ => none

/-- The last state block, with its line. -/
def stateOf? (blocks : List Block) : Option (Nat × List Nat) :=
  (blocks.filterMap fun
    | .state line values => some (line, values)
    | _ => none).getLast?

/-- The facts of the last goal block. -/
def goalOf (blocks : List Block) : List Fact :=
  (blocks.filterMap fun
    | .goal facts => some facts
    | _ => none).getLastD []

/-- The initial state of a state block. -/
def initialOf (domainSizes : List Nat) (line : Nat) (values : List Nat) :
    Except LineFault State := do
  if values.length ≠ domainSizes.length then
    fail line (.stateLength values.length domainSizes.length)
  else
    checkValues domainSizes line 0 values
    return State.ofValues values

/-- The task of the blocks of a file whose last line is `lastLine`. -/
def taskOf (lastLine : Nat) (blocks : List Block) : Except LineFault Task := do
  let vars := variablesOf blocks
  let domainSizes := vars.map Variable.domainSize
  match stateOf? blocks with
  | none => fail lastLine .missingState
  | some (line, values) =>
    let initial ← initialOf domainSizes line values
    let goal ← stateOfFacts domainSizes (goalOf blocks)
    let mutexes ← (mutexesOf blocks).mapM (stateOfFacts domainSizes)
    let actions ← (operatorsOf blocks).mapM (Operator.action domainSizes)
    return Task.ofActions vars initial goal mutexes actions

/-- Reads a task file. -/
def parse (text : String) : Except Stop Task := do
  let (blocks, c) ← Reader.blocks ⟨0, fileLines text⟩
  taskOf c.last blocks

end StrongCyclic.Sas
