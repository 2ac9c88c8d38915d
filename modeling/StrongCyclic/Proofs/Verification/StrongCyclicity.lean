import StrongCyclic.Proofs.SolutionSpace.Distance
import StrongCyclic.Proofs.Verification.Exactness

/-!
The verdict decides whether a controller is strong cyclic. The paths of the solution space are the
runs between its nodes, so a node has a distance to the goal state just if a run can go from it to
the goal state, and the dead ends are the nodes from which none can.
-/

namespace StrongCyclic.Verification

variable {c : Controller} {t : Task} {space : SolutionSpace} {v : Verdict}

/-- A run that has come to a pair can go on to the goal state of the controller. -/
def CanFinish (c : Controller) (t : Task) (node : SpaceNode) : Prop :=
  ∃ last, Relation.ReflTransGen (Step c t) node last ∧ last.controller = c.goal

/-! ### Paths are runs -/

theorem IsSimulation.leads (h : IsSimulation c t space) {length id target : Nat}
    {node last : SpaceNode} (hid : space.nodes[id]? = some node)
    (hlast : space.nodes[target]? = some last) (hwalk : space.Walk length id target) :
    Relation.ReflTransGen (Step c t) node last := by
  induction hwalk generalizing node with
  | nil id =>
    cases hid.symm.trans hlast
    exact .refl
  | cons hnext _ ih =>
    obtain ⟨next, hget, hstep⟩ := (h.mem_successorsOf_iff _ node _ hid).mp hnext
    exact .head hstep (ih hget hlast)

theorem IsSimulation.exists_walk (h : IsSimulation c t space) {id : Nat} {node last : SpaceNode}
    (hid : space.nodes[id]? = some node) (hrun : Relation.ReflTransGen (Step c t) node last) :
    ∃ length target, space.nodes[target]? = some last ∧ space.Walk length id target := by
  induction hrun using Relation.ReflTransGen.head_induction_on generalizing id with
  | refl => exact ⟨0, id, hid, .nil id⟩
  | @head node next hstep _ ih =>
    have hreach := (h.mem_nodes_iff node).mp (List.mem_of_getElem? hid)
    obtain ⟨place, hplace⟩ :=
      List.mem_iff_getElem?.mp ((h.mem_nodes_iff next).mpr (hreach.tail hstep))
    obtain ⟨length, target, htarget, hwalk⟩ := ih hplace
    have hedge := (h.mem_successorsOf_iff id node place hid).mpr ⟨next, hplace, hstep⟩
    exact ⟨length + 1, target, htarget, .cons hedge hwalk⟩

theorem IsSimulation.pathLengths_nonempty_iff (h : IsSimulation c t space) {id : Nat}
    {node : SpaceNode} (hid : space.nodes[id]? = some node) :
    (space.pathLengths c.goal id).Nonempty ↔ CanFinish c t node := by
  constructor
  · rintro ⟨length, target, last, hlast, hgoal, hwalk⟩
    exact ⟨last, h.leads hid hlast hwalk, hgoal⟩
  · rintro ⟨last, hrun, hgoal⟩
    obtain ⟨length, target, hlast, hwalk⟩ := h.exists_walk hid hrun
    exact ⟨length, target, last, hlast, hgoal, hwalk⟩

/-! ### The verdict -/

theorem Verdict.mem_deadEnds_iff (v : Verdict) (node : SpaceNode) :
    node ∈ v.deadEnds ↔
      ∃ id : Nat, v.distances[id]? = some none ∧ v.space.nodes[id]? = some node := by
  unfold Verdict.deadEnds
  rw [List.mem_map]
  constructor
  · rintro ⟨⟨distance, _⟩, hmem, rfl⟩
    obtain ⟨hzip, hnone⟩ := List.mem_filter.mp hmem
    obtain ⟨id, hid⟩ := List.mem_iff_getElem?.mp hzip
    obtain ⟨hd, hn⟩ := List.getElem?_zip_eq_some.mp hid
    cases Option.isNone_iff_eq_none.mp hnone
    exact ⟨id, hd, hn⟩
  · rintro ⟨id, hd, hn⟩
    have hzip : (v.distances.zip v.space.nodes)[id]? = some (none, node) :=
      List.getElem?_zip_eq_some.mpr ⟨hd, hn⟩
    exact ⟨(none, node), List.mem_filter.mpr ⟨List.mem_of_getElem? hzip, rfl⟩, rfl⟩

/-- What a verdict consists of. -/
theorem verdict_spec (h : verify c t = .ok v) : Agrees c t ∧ IsSimulation c t v.space ∧
    v.distances = v.space.distancesTo c.goal ∧
    v.strongCyclic = v.distances.all Option.isSome := by
  have hspec := solutionSpace_spec c t
  rw [verify_eq] at h
  cases hspace : solutionSpace c t with
  | error fault =>
    rw [hspace] at h
    exact nomatch h
  | ok space =>
    rw [hspace] at h hspec
    cases h
    exact ⟨hspec.1, hspec.2, rfl, rfl⟩

theorem areDistances (h : verify c t = .ok v) : v.space.AreDistances c.goal v.distances := by
  obtain ⟨-, hsim, hdistances, -⟩ := verdict_spec h
  exact hdistances ▸ hsim.toWellFormed.areDistances c.goal

theorem getElem?_distances_eq_none_iff (h : verify c t = .ok v) {id : Nat} {node : SpaceNode}
    (hid : v.space.nodes[id]? = some node) :
    v.distances[id]? = some none ↔ ¬ CanFinish c t node := by
  obtain ⟨-, hsim, -⟩ := verdict_spec h
  rw [(areDistances h).none_iff id (List.getElem?_eq_some_iff.mp hid).1,
    ← hsim.pathLengths_nonempty_iff hid, Set.not_nonempty_iff_eq_empty]

/-- The dead ends are the pairs of runs that cannot go on to the goal state. -/
theorem mem_deadEnds_iff (h : verify c t = .ok v) (node : SpaceNode) :
    node ∈ v.deadEnds ↔ Reachable c t node ∧ ¬ CanFinish c t node := by
  obtain ⟨-, hsim, -⟩ := verdict_spec h
  rw [Verdict.mem_deadEnds_iff, ← hsim.mem_nodes_iff, List.mem_iff_getElem?]
  constructor
  · rintro ⟨id, hd, hn⟩
    exact ⟨⟨id, hn⟩, (getElem?_distances_eq_none_iff h hn).mp hd⟩
  · rintro ⟨⟨id, hn⟩, hfinish⟩
    exact ⟨id, (getElem?_distances_eq_none_iff h hn).mpr hfinish, hn⟩

theorem strongCyclic_iff (h : verify c t = .ok v) :
    v.strongCyclic = true ↔ ∀ node, Reachable c t node → CanFinish c t node := by
  obtain ⟨-, hsim, -, hall⟩ := verdict_spec h
  have hlength := (areDistances h).length_eq
  rw [hall, List.all_eq_true]
  constructor
  · intro hsome node hreach
    obtain ⟨id, hid⟩ := List.mem_iff_getElem?.mp ((hsim.mem_nodes_iff node).mpr hreach)
    by_contra hfinish
    have hnone := (getElem?_distances_eq_none_iff h hid).mpr hfinish
    exact nomatch hsome none (List.mem_of_getElem? hnone)
  · intro hfinish distance hmem
    obtain ⟨id, hd⟩ := List.mem_iff_getElem?.mp hmem
    cases distance with
    | some d => rfl
    | none =>
      have hid : id < v.space.nodes.length :=
        lt_of_lt_of_eq (List.getElem?_eq_some_iff.mp hd).1 hlength
      have hget := List.getElem?_eq_getElem hid
      have hreach := (hsim.mem_nodes_iff _).mp (List.getElem_mem hid)
      exact absurd (hfinish _ hreach) ((getElem?_distances_eq_none_iff h hget).mp hd)

/-- The distances of a verdict are the lengths of the shortest paths to the goal state, as are those
to any controller state, and the verdict is that of a strong cyclic controller just if each pair of
its runs can go on to the goal state, which is to say that there are no dead ends. -/
theorem verify_decides_strongCyclicity (h : verify c t = .ok v) :
    v.space.AreDistances c.goal v.distances ∧
    (∀ goal, v.space.AreDistances goal (v.space.distancesTo goal)) ∧
    (v.strongCyclic = true ↔ ∀ node, Reachable c t node → CanFinish c t node) ∧
    (v.strongCyclic = true ↔ v.deadEnds = []) := by
  obtain ⟨-, hsim, -⟩ := verdict_spec h
  refine ⟨areDistances h, hsim.toWellFormed.areDistances, strongCyclic_iff h, ?_⟩
  rw [strongCyclic_iff h, List.eq_nil_iff_forall_not_mem]
  constructor
  · intro hall node hmem
    obtain ⟨hreach, hfinish⟩ := (mem_deadEnds_iff h node).mp hmem
    exact hfinish (hall node hreach)
  · intro hnil node hreach
    by_contra hfinish
    exact hnil node ((mem_deadEnds_iff h node).mpr ⟨hreach, hfinish⟩)

/-! ### A door that sticks -/

/-- An outcome of pushing a closed door. -/
def push (name : String) (outcome : Nat) (changes : List ValueChange) : Action :=
  .ofChanges ⟨name, "push", some outcome, []⟩ (.ofPairs 1 [(0, 0)]) changes 1 [2]

/-- The task to open a closed door with the given actions. -/
def openDoor (actions : List Action) : Task :=
  .ofActions [⟨"door", ["closed", "open"]⟩] (.ofValues [0]) (.ofPairs 1 [(0, 1)]) [] actions

/-- A door that sticks: a push may leave it closed or open it. -/
def door : Task :=
  openDoor [push "push_DETDUP_0" 0 [], push "push_DETDUP_1" 1 [⟨0, some 0, 1⟩]]

/-- The controller that pushes until the door is open. -/
def pushing : Controller where
  answer := 1
  numVariables := 1
  states := [(0, .ofValues [0]), (1, .ofValues [1])]
  transitions := [⟨0, "e1", 0⟩, ⟨0, "e2", 1⟩]
  policy := [(0, "push()")]

/-- The verdict on the pushing controller: one pair with the door closed and one with it open. -/
def pushingVerdict : Verdict where
  strongCyclic := true
  distances := [some 1, some 0]
  space :=
    { nodes := [⟨0, .ofValues [0]⟩, ⟨1, .ofValues [1]⟩]
      index := [(⟨0, .ofValues [0]⟩, 0), (⟨1, .ofValues [1]⟩, 1)]
      successors := [[0, 1], []] }

theorem verify_pushing_door : verify pushing door = .ok pushingVerdict := by
  decide +kernel

theorem verify_decides_strongCyclicity_pushing_door :
    verify pushing door = .ok pushingVerdict ∧
    IsLeast (pushingVerdict.space.pathLengths pushing.goal 0) 1 ∧
    ∀ node, Reachable pushing door node → CanFinish pushing door node := by
  obtain ⟨hdist, -, hfinish, -⟩ := verify_decides_strongCyclicity verify_pushing_door
  exact ⟨verify_pushing_door, (hdist.some_iff 0 1).mp rfl, hfinish.mp rfl⟩

end StrongCyclic.Verification
