import StrongCyclic.Answer.Term
import StrongCyclic.Collection.IdMap
import StrongCyclic.Planning.Action

/-!
Finite-state controllers. A controller state has a number and declares a partial assignment; the
policy gives it an action, and the transitions say where each outcome of that action leads. State 0
is the initial state and the largest number is the goal state. A controller is built up entry by
entry and finished by a check that also brings the transitions into their order.
-/

namespace StrongCyclic

/-- Where the controller goes when the policy action of `source` ends with an outcome. -/
structure Transition where
  source : Nat
  tag : String
  target : Nat
deriving DecidableEq, Repr, Inhabited

namespace Transition

/-- Transitions are ordered by source, tag and target. -/
def before (t u : Transition) : Bool :=
  if t.source ≠ u.source then t.source < u.source
  else if t.tag ≠ u.tag then t.tag < u.tag
  else t.target < u.target

/-- Puts a transition into its place, unless it is there already. -/
def insertOrdered (t : Transition) : List Transition → List Transition
  | [] => [t]
  | u :: us =>
    if t = u then u :: us
    else if t.before u then t :: u :: us
    else u :: insertOrdered t us

/-- The transitions in their order, each once. -/
def ordered (transitions : List Transition) : List Transition :=
  transitions.foldr insertOrdered []

end Transition

/-- A finite-state controller. -/
structure Controller where
  /-- The number of the answer that the controller comes from. -/
  answer : Nat
  numVariables : Nat
  /-- The declared assignments by state. -/
  states : List (Nat × State)
  transitions : List Transition
  /-- The actions by state. -/
  policy : List (Nat × String)
deriving DecidableEq, Repr, Inhabited

namespace Controller

/-- Why no controller can be built. -/
inductive Fault
  | malformedAtom (a : Atom)
  | unknownVariable (state var numVariables : Nat)
  | noStates
  | noPolicy (t : Transition)
  | invalidTag (tag : String)
  | tooFewSections (found : Nat)
  | missingHeader (name : String)
  | wrongHeader (name found : String)
  | notANumber (text : String)
  | noAssignment (found : String)
  | assignmentWithoutState
  | assignmentOutOfRange (found : String)
  | malformedTransition (found : String)
  | malformedPolicy (found : String)
  | wrongEnds (initial goal statesInitial statesGoal : Nat)
deriving DecidableEq, Repr, Inhabited

/-- The wording of a fault. -/
def Fault.message : Fault → String
  | .malformedAtom a => "malformed controller atom `" ++ a.text ++ "`"
  | .unknownVariable state var numVariables =>
    "state " ++ toString state ++ " assigns variable " ++ toString var ++ " of " ++
      toString numVariables
  | .noStates => "answer has no controller states"
  | .noPolicy t =>
    "transition " ++ toString t.source ++ "--" ++ t.tag ++ "-->" ++ toString t.target ++
      " leaves a state without policy"
  | .invalidTag tag => "invalid effect tag `" ++ tag ++ "`"
  | .tooFewSections found => "expected 6 sections, found " ++ toString found
  | .missingHeader name => "missing `" ++ name ++ "` header"
  | .wrongHeader name found => "expected `" ++ name ++ ":`, found `" ++ found ++ "`"
  | .notANumber text => "expected number, found `" ++ text ++ "`"
  | .noAssignment found => "expected `var=value`, found `" ++ found ++ "`"
  | .assignmentWithoutState => "assignment before any `State:` line"
  | .assignmentOutOfRange found => "variable out of range in `" ++ found ++ "`"
  | .malformedTransition found => "malformed transition `" ++ found ++ "`"
  | .malformedPolicy found => "malformed policy `" ++ found ++ "`"
  | .wrongEnds initial goal statesInitial statesGoal =>
    "header declares initial " ++ toString initial ++ " and goal " ++ toString goal ++
      ", states give " ++ toString statesInitial ++ " and " ++ toString statesGoal

/-- A fault of a line; a fault of an answer has line zero. -/
abbrev LineFault := AtLine Fault

/-- Reports a fault. -/
def fail {α : Type} (line : Nat) (fault : Fault) : Except LineFault α :=
  .error ⟨line, fault⟩

/-- The number of the initial state. -/
def initial (_ : Controller) : Nat := 0

/-- The number of the goal state. -/
def goal (c : Controller) : Nat :=
  (c.states.map Prod.fst).foldl max 0

/-- The number of states. -/
def size (c : Controller) : Nat :=
  c.states.length

/-- The declared assignment of a state. -/
def state? (c : Controller) (id : Nat) : Option State :=
  c.states.lookup id

/-- The action of a state. -/
def policy? (c : Controller) (id : Nat) : Option String :=
  c.policy.lookup id

/-- The transitions that leave a state. -/
def transitionsFrom (c : Controller) (id : Nat) : List Transition :=
  c.transitions.filter (·.source = id)

/-- Where the first transition of a state with a given tag leads. -/
def successor? (c : Controller) (id : Nat) (tag : String) : Option Nat :=
  ((c.transitionsFrom id).find? (·.tag = tag)).map Transition.target

/-- The action of a state as a text, which is empty if it has none. -/
def policyText (c : Controller) (id : Nat) : String :=
  (c.policy? id).getD ""

/-- A controller without states. -/
def empty (answer numVariables : Nat) : Controller :=
  { answer, numVariables, states := [], transitions := [], policy := [] }

/-- Adds a state that declares nothing, unless it is there already. -/
def addState (c : Controller) (id : Nat) : Controller :=
  { c with states := IdMap.ensure id (State.undefined c.numVariables) c.states }

/-- Declares the value of a variable in a state, which is added if need be. -/
def assign (c : Controller) (id var value : Nat) : Option Controller :=
  if c.numVariables ≤ var then none
  else
    some { c with
      states := IdMap.alter id
        (fun old => (old.getD (State.undefined c.numVariables)).set var (some value)) c.states }

/-- Gives a state an action. -/
def setPolicy (c : Controller) (id : Nat) (action : String) : Controller :=
  { c with policy := IdMap.insert id action c.policy }

/-- Adds a transition and the states at its ends. -/
def addTransition (c : Controller) (t : Transition) : Controller :=
  let c := (c.addState t.source).addState t.target
  { c with transitions := c.transitions ++ [t] }

/-- Checks that there are states, that only states with an action are left and that every tag is
that of an outcome, and orders the transitions. -/
def finish (c : Controller) : Except LineFault Controller :=
  if c.states = [] then fail 0 .noStates
  else match c.transitions.find? fun t => (c.policy? t.source).isNone with
    | some t => fail 0 (.noPolicy t)
    | none =>
      match c.transitions.find? fun t => (outcomeIndex? t.tag).isNone with
      | some t => fail 0 (.invalidTag t.tag)
      | none => .ok { c with transitions := Transition.ordered c.transitions }

end Controller

end StrongCyclic
