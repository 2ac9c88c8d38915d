import StrongCyclic.Controller.Basic
import StrongCyclic.Text.Json

/-!
The graph of a controller for graph viewers, with its states as nodes and its transitions as edges.
-/

namespace StrongCyclic.Controller

/-- The kind of a node. -/
inductive NodeKind
  | initial
  | inner
  | goal
deriving DecidableEq, Repr, Inhabited

/-- The number of a kind of node. -/
def NodeKind.code : NodeKind → Nat
  | .initial => 0
  | .inner => 1
  | .goal => 2

/-- A node: a state with its assignment in three notations. -/
structure GraphNode where
  id : String
  label : String
  kind : NodeKind
  /-- The assignment as equations in brackets. -/
  state : String
  /-- The assignment as equations of numbers. -/
  numbers : String
  /-- The assignment as equations of names and labels. -/
  labels : String
deriving DecidableEq, Repr, Inhabited

/-- An edge: a transition with the action and the tag. -/
structure GraphEdge where
  source : String
  target : String
  label : String
deriving DecidableEq, Repr, Inhabited

/-- The graph of a controller. -/
structure Graph where
  nodes : List GraphNode
  edges : List GraphEdge
deriving DecidableEq, Repr, Inhabited

/-- A variable and its value as numbers. -/
def numberEquation (var value : Nat) : String :=
  "var" ++ toString var ++ "=" ++ toString value

/-- A variable and its value by name and label. -/
def labelEquation (vars : List Variable) (var value : Nat) : String :=
  match vars[var]? with
  | some v => v.name ++ "=" ++ v.label value
  | none => numberEquation var value

/-- The kind of a state; a state that is initial and goal counts as initial. -/
def kindOf (c : Controller) (id : Nat) : NodeKind :=
  if id = c.initial then .initial else if id = c.goal then .goal else .inner

/-- The node of a state. -/
def nodeOf (c : Controller) (vars : List Variable) (id : Nat) (s : State) : GraphNode :=
  { id := toString id
    label := toString id
    kind := c.kindOf id
    state := s.text
    numbers := ",".intercalate (s.pairs.map fun (var, value) => numberEquation var value)
    labels := ",".intercalate (s.pairs.map fun (var, value) => labelEquation vars var value) }

/-- The edge of a transition. -/
def edgeOf (c : Controller) (t : Transition) : GraphEdge :=
  { source := toString t.source
    target := toString t.target
    label := c.policyText t.source ++ "," ++ t.tag }

/-- The graph of a controller. -/
def graph (c : Controller) (vars : List Variable) : Graph :=
  { nodes := c.states.map fun (id, s) => c.nodeOf vars id s
    edges := c.transitions.map c.edgeOf }

/-- A node as a JSON object. -/
def GraphNode.json (indent : String) (n : GraphNode) : String :=
  Text.Json.object indent
    [("id", Text.Json.string n.id), ("label", Text.Json.string n.label),
      ("type", toString n.kind.code), ("state", Text.Json.string n.state),
      ("clingo", Text.Json.string n.numbers), ("sas", Text.Json.string n.labels)]

/-- An edge as a JSON object. -/
def GraphEdge.json (indent : String) (e : GraphEdge) : String :=
  Text.Json.object indent
    [("source", Text.Json.string e.source), ("target", Text.Json.string e.target),
      ("label", Text.Json.string e.label)]

/-- The graph as a JSON object. -/
def Graph.json (g : Graph) : String :=
  Text.Json.object ""
    [("nodes", Text.Json.array "  " (g.nodes.map (GraphNode.json "    "))),
      ("edges", Text.Json.array "  " (g.edges.map (GraphEdge.json "    ")))]

end StrongCyclic.Controller
