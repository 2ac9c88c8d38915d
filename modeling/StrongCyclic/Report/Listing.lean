import StrongCyclic.Verification.Verify

/-!
Listings of a controller and of the outcome of its verification, with one line for each controller
state.
-/

namespace StrongCyclic

namespace Controller

/-- The line of a state: its assignment, its action and where the outcomes lead. -/
def listingLine (c : Controller) (vars : List Variable) (id : Nat) (s : State) : String :=
  Text.alignRight 3 (toString id) ++ " [" ++ s.describe vars ++ "] " ++
    (c.policy? id).getD "-" ++ " " ++
    " ".intercalate ((c.transitionsFrom id).map fun t => t.tag ++ "->" ++ toString t.target)

/-- The states of a controller. -/
def listing (c : Controller) (vars : List Variable) : String :=
  Text.unlines (c.states.map fun (id, s) => c.listingLine vars id s)

end Controller

namespace Verification.Verdict

/-- The verdict in numbers. -/
def text (v : Verdict) : String :=
  Text.unlines
    (["Verification:",
      "  Strong cyclic: " ++ toString v.strongCyclic,
      "  Reachable pairs: " ++ toString v.space.size,
      "  Edges: " ++ toString v.space.edgeCount,
      "  Dead ends: " ++ toString v.deadEnds.length] ++
      match v.maxDistance? with
      | some d => ["  Longest distance to goal: " ++ toString d]
      | none => [])

/-- A distance, or the mark that the goal cannot be reached. -/
def distanceText : Option Nat → String
  | some d => toString d
  | none => "inf"

/-- The distances of the pairs by their controller states, in increasing order of these. -/
def byController (v : Verdict) : List (Nat × List (Option Nat)) :=
  (v.space.nodes.zip v.distances).foldl
    (fun groups (node, d) => IdMap.alter node.controller (·.getD [] ++ [d]) groups) []

/-- The verdict and the distances of the pairs of each controller state. -/
def details (v : Verdict) : String :=
  v.text ++ "\n" ++
    Text.unlines (v.byController.map fun (id, distances) =>
      "  q" ++ toString id ++ ": " ++ ",".intercalate (distances.map distanceText))

end Verification.Verdict

end StrongCyclic
