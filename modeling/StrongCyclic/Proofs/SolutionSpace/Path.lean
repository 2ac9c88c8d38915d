import Mathlib.Data.Set.Basic
import Mathlib.Order.Bounds.Defs
import StrongCyclic.Proofs.SolutionSpace.Representation

/-!
Paths in a solution space, and what it means that a list holds the distances of its nodes. The lists
of predecessors show the edges against their direction.
-/

namespace StrongCyclic

namespace SolutionSpace

/-- The paths of a given length between two places. -/
inductive Walk (space : SolutionSpace) : Nat → Nat → Nat → Prop
  | nil (id : Nat) : Walk space 0 id id
  | cons {length id next target : Nat} : next ∈ space.successorsOf id →
    Walk space length next target → Walk space (length + 1) id target

/-- The lengths of the paths from a place to the nodes with a controller state. -/
def pathLengths (space : SolutionSpace) (goal id : Nat) : Set Nat :=
  { length | ∃ target node, space.nodes[target]? = some node ∧ node.controller = goal ∧
    space.Walk length id target }

/-- One distance for each place: the length of a shortest path to a node with the controller state,
which is less than the number of nodes, or none if there is no path. -/
structure AreDistances (space : SolutionSpace) (goal : Nat) (distances : List (Option Nat)) :
    Prop where
  length_eq : distances.length = space.size
  some_iff : ∀ id d : Nat, distances[id]? = some (some d) ↔ IsLeast (space.pathLengths goal id) d
  none_iff : ∀ id : Nat, id < space.size →
    (distances[id]? = some none ↔ space.pathLengths goal id = ∅)
  lt_size : ∀ id d : Nat, distances[id]? = some (some d) → d < space.size

variable {space : SolutionSpace} {goal : Nat}

/-! ### Paths -/

theorem isAt_iff (id : Nat) : space.isAt goal id = true ↔
    ∃ node, space.nodes[id]? = some node ∧ node.controller = goal := by
  simp [isAt, Option.any_eq_true]

theorem zero_mem_pathLengths {id : Nat} (h : space.isAt goal id = true) :
    0 ∈ space.pathLengths goal id := by
  obtain ⟨node, hnode, hgoal⟩ := (isAt_iff id).mp h
  exact ⟨id, node, hnode, hgoal, .nil id⟩

theorem succ_mem_pathLengths_iff (d id : Nat) : d + 1 ∈ space.pathLengths goal id ↔
    ∃ next ∈ space.successorsOf id, d ∈ space.pathLengths goal next := by
  constructor
  · rintro ⟨target, node, hnode, hgoal, hwalk⟩
    cases hwalk with
    | cons hnext hwalk => exact ⟨_, hnext, target, node, hnode, hgoal, hwalk⟩
  · rintro ⟨next, hnext, target, node, hnode, hgoal, hwalk⟩
    exact ⟨target, node, hnode, hgoal, .cons hnext hwalk⟩

/-- A shortest path goes on with a shortest path. -/
theorem isLeast_pathLengths_next {d id : Nat}
    (h : IsLeast (space.pathLengths goal id) (d + 1)) :
    ∃ next, IsLeast (space.pathLengths goal next) d := by
  obtain ⟨next, hnext, hd⟩ := (succ_mem_pathLengths_iff d id).mp h.1
  refine ⟨next, hd, fun length hlength => ?_⟩
  have := h.2 ((succ_mem_pathLengths_iff length id).mpr ⟨next, hnext, hlength⟩)
  omega

/-- The places on a shortest path have all distances up to its length. -/
theorem exists_isLeast_pathLengths {d id : Nat} (h : IsLeast (space.pathLengths goal id) d) :
    ∀ k ≤ d, ∃ place, IsLeast (space.pathLengths goal place) k := by
  induction d generalizing id with
  | zero =>
    intro k hk
    exact ⟨id, Nat.le_zero.mp hk ▸ h⟩
  | succ d ih =>
    intro k hk
    rcases Nat.eq_or_lt_of_le hk with rfl | hlt
    · exact ⟨id, h⟩
    · obtain ⟨next, hnext⟩ := isLeast_pathLengths_next h
      exact ih hnext k (Nat.lt_succ_iff.mp hlt)

/-! ### Predecessors -/

theorem mem_edges_iff (source target : Nat) :
    (source, target) ∈ space.edges ↔ target ∈ space.successorsOf source := by
  simp only [edges, List.mem_flatMap, List.mem_map, Prod.mk.injEq, Prod.exists,
    List.mem_zipIdx_iff_getElem?, successorsOf, List.getD_eq_getElem?_getD]
  constructor
  · rintro ⟨targets, _, hget, _, hmem, rfl, rfl⟩
    rw [hget]
    exact hmem
  · intro hmem
    cases hget : space.successors[source]? with
    | none =>
      rw [hget] at hmem
      simp at hmem
    | some targets =>
      rw [hget] at hmem
      exact ⟨targets, source, hget, target, hmem, rfl, rfl⟩

theorem mem_foldl_predecessors (edges : List (Nat × Nat)) (before : List (List Nat))
    (source target : Nat) :
    source ∈ (edges.foldl (fun before (edge : Nat × Nat) =>
        before.modify edge.2 (· ++ [edge.1])) before).getD target [] ↔
      source ∈ before.getD target [] ∨ (target < before.length ∧ (source, target) ∈ edges) := by
  induction edges generalizing before with
  | nil => simp
  | cons edge edges ih =>
    obtain ⟨s, m⟩ := edge
    rw [List.foldl_cons, ih, List.length_modify]
    simp only [List.getD_eq_getElem?_getD, List.getElem?_modify, List.mem_cons, Prod.mk.injEq]
    by_cases hm : m = target
    · subst hm
      by_cases hlt : m < before.length
      · simp [hlt, or_assoc]
      · simp [hlt]
    · simp [hm, Ne.symm hm]

theorem mem_predecessors_iff {target : Nat} (h : target < space.size) (source : Nat) :
    source ∈ space.predecessors.getD target [] ↔ target ∈ space.successorsOf source := by
  have hmem := mem_foldl_predecessors space.edges (List.replicate space.size []) source target
  rw [mem_edges_iff] at hmem
  refine hmem.trans ?_
  simp [h]

end SolutionSpace

end StrongCyclic
