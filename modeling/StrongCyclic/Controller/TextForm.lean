import StrongCyclic.Controller.Basic

/-!
The text form of a controller: six sections, each closed by a divider, hold the number of the
answer, the initial state, the goal state, the states, the transitions and the policy. What follows
the sixth section is not read, so a listing of the variables can stand there.
-/

namespace StrongCyclic.Controller

/-- The line between two sections. -/
def divider : String := "--------"

/-! ## Writing -/

/-- A state and its assignment. -/
def stateLines (id : Nat) (s : State) : List String :=
  ("State:" ++ toString id) ::
    s.pairs.map fun (var, value) => toString var ++ "=" ++ toString value

/-- A transition, shown with the action that it belongs to. -/
def transitionLine (c : Controller) (t : Transition) : String :=
  toString t.source ++ "--" ++ c.policyText t.source ++ "," ++ t.tag ++ "-->" ++ toString t.target

/-- The action of a state. -/
def policyLine (id : Nat) (action : String) : String :=
  toString id ++ "-->" ++ action

/-- The lines of the text form. -/
def textLines (c : Controller) : List String :=
  ["ANSWER:" ++ toString c.answer, divider,
    "Initial State:" ++ toString c.initial, divider,
    "Goal State:" ++ toString c.goal, divider] ++
    (c.states.flatMap fun (id, s) => stateLines id s) ++
    [divider, "Transitions:"] ++ c.transitions.map c.transitionLine ++
    [divider, "Policy:"] ++ (c.policy.map fun (id, action) => policyLine id action) ++
    [divider]

/-- The text form. -/
def text (c : Controller) : String :=
  Text.unlines c.textLines

/-- A variable with the labels of its values. -/
def variableLine (v : Variable) : String :=
  v.name ++ ": [" ++ ", ".intercalate ((List.range v.domainSize).map v.label) ++ "]"

/-- The text form and a listing of variables. -/
def textWithVariables (c : Controller) (vars : List Variable) : String :=
  c.text ++ Text.unlines ("DomainVariables:" :: vars.map variableLine)

/-! ## Reading -/

/-- A numbered line of the text form, without the blanks at its ends. -/
abbrev TextLine := Nat × String

/-- The lines between dividers, without the blank ones. -/
def sectionsOf : List TextLine → List (List TextLine)
  | [] => [[]]
  | (number, line) :: rest =>
    if line = divider then [] :: sectionsOf rest
    else if line = "" then sectionsOf rest
    else match sectionsOf rest with
      | [] => [[(number, line)]]
      | s :: sections => ((number, line) :: s) :: sections

/-- The sections of a text. -/
def sections (text : String) : List (List TextLine) :=
  sectionsOf ((Text.lines text).mapIdx fun i line => (i + 1, Text.trim line))

/-- The number that a text stands for, apart from blanks at its ends. -/
def readNumber (line : Nat) (text : String) : Except LineFault Nat :=
  match Text.natural? (Text.trim text) with
  | some n => .ok n
  | none => fail line (.notANumber (Text.trim text))

/-- The number in a section that consists of `name:number`. -/
def readHeader (name : String) : List TextLine → Except LineFault Nat
  | [] => fail 0 (.missingHeader name)
  | (number, line) :: _ =>
    match (Text.afterPrefix? name line).bind (Text.afterPrefix? ":") with
    | some value => readNumber number value
    | none => fail number (.wrongHeader name line)

/-- Reads the assignment of a variable in the current state. -/
def readAssignment (c : Controller) (current : Option Nat) (number : Nat) (line : String) :
    Except LineFault Controller :=
  match Text.cutFirst? "=" line with
  | none => fail number (.noAssignment line)
  | some (var, value) =>
    match current with
    | none => fail number .assignmentWithoutState
    | some id => do
      let var ← readNumber number var
      let value ← readNumber number value
      match c.assign id var value with
      | some c => .ok c
      | none => fail number (.assignmentOutOfRange line)

/-- Reads the section of the states; `current` is the state that assignments belong to. -/
def readStates (c : Controller) (current : Option Nat) :
    List TextLine → Except LineFault Controller
  | [] => .ok c
  | (number, line) :: rest =>
    match Text.afterPrefix? "State:" line with
    | some id => do
      let id ← readNumber number id
      readStates (c.addState id) (some id) rest
    | none => do
      let c ← c.readAssignment current number line
      readStates c current rest

/-- The parts of a transition line: the source, the tag and the target. The action in front of the
tag may hold any of the marks between the parts. -/
def transitionParts? (line : String) : Option (String × String × String) := do
  let (source, rest) ← Text.cutFirst? "--" line
  let (label, target) ← Text.cutLast? "-->" rest
  let (_, tag) ← Text.cutLast? "," label
  return (source, tag, target)

/-- Reads a line of the section of the transitions. -/
def readTransition (c : Controller) : TextLine → Except LineFault Controller
  | (number, line) =>
    match transitionParts? line with
    | none => fail number (.malformedTransition line)
    | some (source, tag, target) => do
      let source ← readNumber number source
      let target ← readNumber number target
      return c.addTransition ⟨source, tag, target⟩

/-- Reads a line of the section of the policy. -/
def readPolicy (c : Controller) : TextLine → Except LineFault Controller
  | (number, line) =>
    match Text.cutFirst? "-->" line with
    | none => fail number (.malformedPolicy line)
    | some (id, action) => do
      let id ← readNumber number id
      return c.setPolicy id (Text.trim action)

/-- The lines of a section, without the ones that are its title. -/
def untitled (title : String) (lines : List TextLine) : List TextLine :=
  lines.filter (·.2 ≠ title)

/-- Reads the text form of a controller over a number of variables. -/
def parse (text : String) (numVariables : Nat) : Except LineFault Controller :=
  match sections text with
  | answer :: initial :: goal :: states :: transitions :: policy :: _ => do
    let number ← readHeader "ANSWER" answer
    let initialId ← readHeader "Initial State" initial
    let goalId ← readHeader "Goal State" goal
    let c ← readStates (empty number numVariables) none states
    let c ← (untitled "Transitions:" transitions).foldlM readTransition c
    let c ← (untitled "Policy:" policy).foldlM readPolicy c
    let c ← c.finish
    if c.initial ≠ initialId ∨ c.goal ≠ goalId then
      fail ((initial.head?.map Prod.fst).getD 0) (.wrongEnds initialId goalId c.initial c.goal)
    else return c
  | found => fail (Text.lines text).length (.tooFewSections found.length)

end StrongCyclic.Controller
