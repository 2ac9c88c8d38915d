import StrongCyclic.Collection.Keyed
import StrongCyclic.Planning.State

/-!
Solution spaces: graphs whose nodes pair a controller state with a planning state. A node is known
by its place in the order of discovery; a pair is never added twice, and neither is an edge.
-/

namespace StrongCyclic

/-- A controller state together with a planning state. -/
structure SpaceNode where
  controller : Nat
  state : State
deriving DecidableEq, Repr, Inhabited

/-- A graph of pairs. -/
structure SolutionSpace where
  /-- The pairs in the order of discovery. -/
  nodes : List SpaceNode
  /-- The place of each pair. -/
  index : List (SpaceNode × Nat)
  /-- The successors of each node, by its place. -/
  successors : List (List Nat)
deriving DecidableEq, Repr, Inhabited

namespace SolutionSpace

/-- The space without nodes. -/
def empty : SolutionSpace :=
  ⟨[], [], []⟩

/-- The number of nodes. -/
def size (space : SolutionSpace) : Nat :=
  space.nodes.length

/-- The place of a pair. -/
def idOf? (space : SolutionSpace) (node : SpaceNode) : Option Nat :=
  space.index.lookup node

/-- Adds a pair behind all others. -/
def push (space : SolutionSpace) (node : SpaceNode) : SolutionSpace where
  nodes := space.nodes ++ [node]
  index := Keyed.insert node space.size space.index
  successors := space.successors ++ [[]]

/-- Adds a pair unless it is there already, and returns its place and whether it is new. -/
def intern (space : SolutionSpace) (node : SpaceNode) : SolutionSpace × Nat × Bool :=
  match space.idOf? node with
  | some id => (space, id, false)
  | none => (space.push node, space.size, true)

/-- The successors of a node. -/
def successorsOf (space : SolutionSpace) (id : Nat) : List Nat :=
  space.successors.getD id []

/-- Adds an edge unless it is there already. -/
def addEdge (space : SolutionSpace) (source target : Nat) : SolutionSpace :=
  { space with
    successors := space.successors.modify source fun targets =>
      if target ∈ targets then targets else targets ++ [target] }

/-- The number of edges. -/
def edgeCount (space : SolutionSpace) : Nat :=
  space.successors.flatten.length

/-- The edges as pairs of places, by their source. -/
def edges (space : SolutionSpace) : List (Nat × Nat) :=
  space.successors.zipIdx.flatMap fun (targets, source) =>
    targets.map fun target => (source, target)

/-- The predecessors of each node, by its place. -/
def predecessors (space : SolutionSpace) : List (List Nat) :=
  space.edges.foldl (fun before (source, target) => before.modify target (· ++ [source]))
    (List.replicate space.size [])

/-- Whether the node at a place has the given controller state. -/
def isAt (space : SolutionSpace) (goal id : Nat) : Bool :=
  (space.nodes[id]?).any (·.controller = goal)

end SolutionSpace

/-- A search against the direction of the edges: the distances found so far, and the nodes whose
predecessors have not been looked at, nearest first. -/
structure Sweep where
  distances : List (Option Nat)
  queue : List Nat
deriving DecidableEq, Repr, Inhabited

namespace Sweep

/-- Gives a node without a distance the distance `d` and lines it up. -/
def reach (d : Nat) (sweep : Sweep) (id : Nat) : Sweep :=
  if sweep.distances[id]? = some none then
    ⟨sweep.distances.set id (some d), sweep.queue ++ [id]⟩
  else sweep

/-- The distance of the predecessors of a node that have none yet. -/
def nextDistance (sweep : Sweep) (id : Nat) : Nat :=
  ((sweep.distances.getD id none).map (· + 1)).getD 0

/-- How many nodes are lined up or still without a distance. -/
def remaining (sweep : Sweep) : Nat :=
  sweep.distances.count none + sweep.queue.length

theorem remaining_reach (d : Nat) (sweep : Sweep) (id : Nat) :
    (sweep.reach d id).remaining = sweep.remaining := by
  unfold reach
  split
  next h =>
    obtain ⟨hid, hnone⟩ := List.getElem?_eq_some_iff.mp h
    have hpos : 0 < sweep.distances.count none :=
      List.count_pos_iff.mpr (hnone ▸ List.getElem_mem hid)
    simp [remaining, List.count_set hid, hnone]
    omega
  next => rfl

theorem remaining_foldl_reach (d : Nat) (ids : List Nat) (sweep : Sweep) :
    (ids.foldl (reach d) sweep).remaining = sweep.remaining := by
  induction ids generalizing sweep with
  | nil => rfl
  | cons id ids ih => rw [List.foldl_cons, ih, remaining_reach]

/-- Looks at the predecessors of all nodes that are lined up or will be. -/
def run (predecessors : List (List Nat)) (sweep : Sweep) : List (Option Nat) :=
  match _h : sweep.queue with
  | [] => sweep.distances
  | id :: queue =>
    run predecessors
      ((predecessors.getD id []).foldl (reach (sweep.nextDistance id)) { sweep with queue })
termination_by sweep.remaining
decreasing_by
  rw [remaining_foldl_reach]
  simp [remaining, _h]

end Sweep

namespace SolutionSpace

/-- The search for the nodes with a controller state, before its first step. -/
def sweepFrom (space : SolutionSpace) (goal : Nat) : Sweep where
  distances := space.nodes.map fun node => if node.controller = goal then some 0 else none
  queue := (List.range space.size).filter (space.isAt goal)

/-- The length of a shortest path from each node to a node with the given controller state. -/
def distancesTo (space : SolutionSpace) (goal : Nat) : List (Option Nat) :=
  (space.sweepFrom goal).run space.predecessors

end SolutionSpace

end StrongCyclic
