import StrongCyclic.Answer.Output
import StrongCyclic.Collection.Sorted

/-!
Backbones: a weak plan, read from an answer, bounds the size of a controller from below and can be
turned into constraints on it. Only the order of the steps counts, not their numbers.
-/

namespace StrongCyclic

/-- How a backbone constrains the controller. -/
inductive BackboneStyle
  /-- The plan is the path from the first controller state to the goal state. -/
  | strict
  /-- Every action of the plan occurs in the policy. -/
  | loose
deriving DecidableEq, Repr, Inhabited

/-- A step of a weak plan: an operator and the outcome that the plan counts on. -/
structure BackboneStep where
  step : Nat
  action : String
  tag : String
deriving DecidableEq, Repr, Inhabited

/-- A weak plan. -/
structure Backbone where
  steps : List BackboneStep
deriving DecidableEq, Repr, Inhabited

namespace Backbone

/-- The number of steps. -/
def length (b : Backbone) : Nat :=
  b.steps.length

/-- The step of a policy atom, or the atom if it is malformed; atoms with a negative step number
stand for nothing. -/
def stepOf (a : Atom) : Except Atom (Option BackboneStep) :=
  match a.int? 0 with
  | none => .error a
  | some step =>
    if step < 0 then .ok none
    else match a.text? 1, a.text? 2 with
      | some action, some tag => .ok (some ⟨step.toNat, action, tag⟩)
      | _, _ => .error a

/-- The steps of the policy atoms, ordered by their numbers; the error is a malformed atom. -/
def ofAnswer (answer : Answer) : Except Atom Backbone := do
  let steps ← (answer.atomsOf "policy" 3).mapM stepOf
  return ⟨Sorted.sortBy BackboneStep.step (steps.filterMap id)⟩

/-- The policy and the transition of the steps, the first of which belongs to `state`; the last
transition leads to the goal state. -/
def pinsFrom (state : Nat) : List BackboneStep → List String
  | [] => []
  | step :: rest =>
    let policy := "policy(" ++ toString state ++ ", \"" ++ step.action ++ "\")."
    let source := "transition(" ++ toString state ++ ", \"" ++ step.tag ++ "\", "
    if rest = [] then [policy, source ++ "X) :- goalState(X)."]
    else policy :: (source ++ toString (state + 1) ++ ").") :: pinsFrom (state + 1) rest

/-- Constraints that make the plan a path of controller states. -/
def strictConstraints (b : Backbone) : String :=
  let range :=
    if b.steps = [] then []
    else ["backboneState(0.." ++ toString (b.length - 1) ++ ")."]
  Text.unlines (pinsFrom 0 b.steps ++ range ++ ["backboneState(X) :- goalState(X)."])

/-- Constraints that make every action of the plan occur. -/
def looseConstraints (b : Backbone) : String :=
  Text.unlines (b.steps.map fun step =>
    ":- \x7bpolicy(State, Action): state(State), Action = \"" ++ step.action ++ "\"\x7d 0.")

/-- The constraints of a style. -/
def constraints (b : Backbone) : BackboneStyle → String
  | .strict => b.strictConstraints
  | .loose => b.looseConstraints

end Backbone

end StrongCyclic
