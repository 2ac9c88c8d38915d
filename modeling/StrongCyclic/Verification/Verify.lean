import StrongCyclic.Controller.Basic
import StrongCyclic.Planning.Task
import StrongCyclic.Verification.SolutionSpace

/-!
Verification of a controller against a planning task. The controller is executed from the initial
state of the task, following every outcome of every policy action, and must agree with the task on
the way. It is strong cyclic if the goal state can be reached from every pair of the solution space.
-/

namespace StrongCyclic

namespace Verification

/-- How a controller disagrees with a task. -/
inductive Fault
  | noInitialState
  | initialMismatch (initial : State) (id : Nat) (declared : State)
  | unknownAction (action : String) (id : Nat)
  | notApplicable (action : String) (state : State) (id : Nat)
  | noTransition (id : Nat) (action tag : String)
  | unknownState (id : Nat)
  | targetMismatch (state : State) (action tag : String) (id : Nat) (declared : State)
deriving DecidableEq, Repr, Inhabited

/-- The wording of a fault. -/
def Fault.message : Fault → String
  | .noInitialState => "controller has no initial state"
  | .initialMismatch initial id declared =>
    "initial state " ++ initial.text ++ " does not satisfy controller state " ++ toString id ++
      " (" ++ declared.text ++ ")"
  | .unknownAction action id =>
    "unknown policy action `" ++ action ++ "` in state " ++ toString id
  | .notApplicable action state id =>
    "action `" ++ action ++ "` is not applicable in " ++ state.text ++ " (controller state " ++
      toString id ++ ")"
  | .noTransition id action tag =>
    "state " ++ toString id ++ " has no transition for `" ++ action ++ "`, " ++ tag
  | .unknownState id => "unknown controller state " ++ toString id
  | .targetMismatch state action tag id declared =>
    state.text ++ " after `" ++ action ++ "`, " ++ tag ++ " does not satisfy controller state " ++
      toString id ++ " (" ++ declared.text ++ ")"

/-- The pair that an outcome of the policy action leads to. -/
def follow (c : Controller) (node : SpaceNode) (action : String) (index : Nat) (outcome : Action) :
    Except Fault SpaceNode :=
  match outcome.progress 0 node.state with
  | none => .error (.notApplicable action node.state node.controller)
  | some state =>
    match c.successor? node.controller (outcomeTag index) with
    | none => .error (.noTransition node.controller action (outcomeTag index))
    | some id =>
      match c.state? id with
      | none => .error (.unknownState id)
      | some declared =>
        if state.entails declared then .ok ⟨id, state⟩
        else .error (.targetMismatch state action (outcomeTag index) id declared)

/-- An exploration under way: the space found so far, and the places of the nodes that have not been
expanded, in the order of their discovery. -/
structure Exploration where
  space : SolutionSpace
  waiting : List Nat
deriving DecidableEq, Repr, Inhabited

namespace Exploration

/-- The exploration that has found one pair. -/
def start (root : SpaceNode) : Exploration :=
  let (space, id, _) := SolutionSpace.empty.intern root
  ⟨space, [id]⟩

/-- Notes that the node at place `id` leads to a pair, which waits for its expansion if it is new. -/
def visit (id : Nat) (e : Exploration) (node : SpaceNode) : Exploration :=
  let (space, target, isNew) := e.space.intern node
  { space := space.addEdge id target
    waiting := if isNew then e.waiting ++ [target] else e.waiting }

end Exploration

/-- Visits the pairs that the outcomes from `index` on lead to. -/
def followAll (c : Controller) (node : SpaceNode) (id : Nat) (action : String) :
    Nat → List Action → Exploration → Except Fault Exploration
  | _, [], e => .ok e
  | index, outcome :: outcomes, e => do
    let next ← follow c node action index outcome
    followAll c node id action (index + 1) outcomes (e.visit id next)

/-- Visits the pairs that a node leads to. The goal state and states without an action lead to
none. -/
def expand (c : Controller) (t : Task) (id : Nat) (node : SpaceNode) (e : Exploration) :
    Except Fault Exploration :=
  if node.controller = c.goal then .ok e
  else match c.policy? node.controller with
    | none => .ok e
    | some action =>
      match t.outcomes? action with
      | none => .error (.unknownAction action node.controller)
      | some outcomes => followAll c node id action 0 outcomes e

/-- Expands the nodes that wait, the first of them first, until none waits or `rounds` of them have
been expanded. -/
def explore (c : Controller) (t : Task) : Nat → Exploration → Except Fault Exploration
  | 0, e => .ok e
  | rounds + 1, e =>
    match e.waiting with
    | [] => .ok e
    | id :: waiting =>
      match e.space.nodes[id]? with
      | none => explore c t rounds { e with waiting }
      | some node => do
        let e ← expand c t id node { e with waiting }
        explore c t rounds e

/-- The values that a variable takes in the initial state, the preconditions and the effects. -/
def valuesOf (t : Task) (var : Nat) : List Nat :=
  let actions := t.groups.flatMap Prod.snd
  let states := t.initial :: actions.flatMap fun a => a.precondition :: a.effects
  (states.filterMap (·.value? var)).eraseDups

/-- A bound on the number of pairs: each slot of a planning state is undefined or holds one of the
values of its variable. No exploration takes more rounds. -/
def pairBound (c : Controller) (t : Task) : Nat :=
  (List.range t.initial.size).foldl (fun bound var => bound * (1 + (valuesOf t var).length)) c.size

/-- The solution space of a controller. -/
def solutionSpace (c : Controller) (t : Task) : Except Fault SolutionSpace :=
  match c.state? c.initial with
  | none => .error .noInitialState
  | some declared =>
    if t.initial.entails declared then do
      let e ← explore c t (pairBound c t) (.start ⟨c.initial, t.initial⟩)
      return e.space
    else .error (.initialMismatch t.initial c.initial declared)

/-- The outcome of a verification. -/
structure Verdict where
  strongCyclic : Bool
  /-- The distance of each node to the goal state. -/
  distances : List (Option Nat)
  space : SolutionSpace
deriving DecidableEq, Repr, Inhabited

namespace Verdict

/-- The pairs from which the goal state cannot be reached. -/
def deadEnds (v : Verdict) : List SpaceNode :=
  ((v.distances.zip v.space.nodes).filter (·.1.isNone)).map Prod.snd

/-- The largest distance to the goal state. -/
def maxDistance? (v : Verdict) : Option Nat :=
  (v.distances.filterMap id).max?

end Verdict

/-- Verifies a controller against a task. -/
def verify (c : Controller) (t : Task) : Except Fault Verdict := do
  let space ← solutionSpace c t
  let distances := space.distancesTo c.goal
  return { strongCyclic := distances.all Option.isSome, distances, space }

end Verification

end StrongCyclic
