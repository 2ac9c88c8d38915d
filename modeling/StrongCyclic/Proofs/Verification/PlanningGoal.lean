import StrongCyclic.Controller.OfAnswer
import StrongCyclic.Proofs.Verification.StrongCyclicity
import StrongCyclic.Sas.Task

/-!
What a strong cyclic controller achieves. Verification measures the way to the goal state of the
controller and never looks at the goal of the task: the one stands for the other only by what the
goal state declares. So the runs of a strong cyclic controller can always go on to a planning state
with the declared values of the goal state, and these have the goal of the task if the declaration
does.
-/

namespace StrongCyclic.Verification

variable {c : Controller} {t : Task} {v : Verdict}

/-- A run that has come to a pair can always go on to a planning state with the goal of the task. -/
def Achieves (c : Controller) (t : Task) : Prop :=
  ∀ node, Reachable c t node →
    ∃ last, Relation.ReflTransGen (Step c t) node last ∧ last.state.entails t.goal = true

/-! ### The goal of the task is not looked at -/

theorem explore_goal (c : Controller) (t : Task) (goal : State) (rounds : Nat) (e : Exploration) :
    explore c { t with goal } rounds e = explore c t rounds e := by
  induction rounds generalizing e with
  | zero => rfl
  | succ rounds ih =>
    rw [explore, explore]
    simp only [ih]
    rfl

/-- Tasks that differ in their goals have the same verdict. -/
theorem verify_goal (c : Controller) (t : Task) (goal : State) :
    verify c { t with goal } = verify c t := by
  have hspace : solutionSpace c { t with goal } = solutionSpace c t := by
    simp only [solutionSpace, explore_goal]
    rfl
  rw [verify, verify, hspace]

/-! ### Runs to the goal state -/

/-- A run ends in the goal state. -/
theorem eq_of_reflTransGen_of_goal {node last : SpaceNode} (hgoal : node.controller = c.goal)
    (hrun : Relation.ReflTransGen (Step c t) node last) : last = node := by
  rcases hrun.cases_head with rfl | ⟨next, ⟨_, _, _, _, hp, -⟩, -⟩
  · rfl
  · exact absurd hgoal hp.1

theorem achieves_iff (hfinish : ∀ node, Reachable c t node → CanFinish c t node) :
    Achieves c t ↔ ∀ node, Reachable c t node → node.controller = c.goal →
      node.state.entails t.goal = true := by
  constructor
  · intro hachieves node hr hgoal
    obtain ⟨last, hrun, hentails⟩ := hachieves node hr
    exact eq_of_reflTransGen_of_goal hgoal hrun ▸ hentails
  · intro hentails node hr
    obtain ⟨last, hrun, hgoal⟩ := hfinish node hr
    exact ⟨last, hrun, hentails last (hr.trans hrun) hgoal⟩

/-- From each pair that a strong cyclic controller comes to, a run can go on to the goal state of
the controller, in a planning state with the declared values. It achieves the goal of the task just
if all planning states in which it comes to its goal state have the goal, as they do if the values
that the goal state declares have it. -/
theorem strongCyclic_reaches_goal_state (h : verify c t = .ok v) (hstrong : v.strongCyclic = true) :
    (∀ node, Reachable c t node → ∃ last, Relation.ReflTransGen (Step c t) node last ∧
      last.controller = c.goal ∧ Fits c last) ∧
    (Achieves c t ↔ ∀ node, Reachable c t node → node.controller = c.goal →
      node.state.entails t.goal = true) ∧
    ∀ declared, c.state? c.goal = some declared → declared.entails t.goal = true →
      Achieves c t := by
  obtain ⟨hagrees, -⟩ := verdict_spec h
  have hfinish := (strongCyclic_iff h).mp hstrong
  refine ⟨fun node hr => ?_, achieves_iff hfinish, fun declared hdeclared hgoal => ?_⟩
  · obtain ⟨last, hrun, hlast⟩ := hfinish node hr
    exact ⟨last, hrun, hlast, hagrees.fits (hr.trans hrun)⟩
  · refine (achieves_iff hfinish).mpr fun node hr hnode => ?_
    obtain ⟨declared', hdeclared', hentails⟩ := hagrees.fits hr
    rw [hnode, hdeclared] at hdeclared'
    cases hdeclared'
    exact State.entails_trans hentails hgoal

theorem strongCyclic_reaches_goal_state_pushing_door :
    verify pushing door = .ok pushingVerdict ∧ Achieves pushing door := by
  obtain ⟨-, -, hdeclared⟩ := strongCyclic_reaches_goal_state verify_pushing_door rfl
  exact ⟨verify_pushing_door, hdeclared (.ofValues [1]) rfl (by decide)⟩

/-! ### A controller that stays where it is -/

/-- The task to open a door that no action opens, as a file. -/
def lockedDoorFile : String :=
  "begin_variable\ndoor\n-1\n2\nclosed\nopen\nend_variable\n" ++
  "begin_state\n0\nend_state\nbegin_goal\n1\n0 1\nend_goal\n"

/-- The controller whose only state is initial state and goal state in one. -/
def staying : Controller where
  answer := 1
  numVariables := 1
  states := [(0, .ofValues [0])]
  transitions := []
  policy := []

theorem parse_lockedDoorFile : Sas.parse lockedDoorFile = .ok (openDoor []) := by
  decide +kernel

theorem ofAnswer_staying :
    Controller.ofAnswer ⟨1, [⟨"holds", [.int 0, .int 0, .int 0]⟩]⟩ 1 = .ok staying := by
  decide +kernel

theorem verify_staying : verify staying (openDoor []) = .ok
    ⟨true, [some 0], ⟨[⟨0, .ofValues [0]⟩], [(⟨0, .ofValues [0]⟩, 0)], [[]]⟩⟩ := by
  decide +kernel

theorem not_achieves_staying : ¬ Achieves staying (openDoor []) := by
  intro hachieves
  obtain ⟨last, hrun, hentails⟩ := hachieves _ .refl
  rw [eq_of_reflTransGen_of_goal (by decide) hrun] at hentails
  exact absurd hentails (by decide)

/-- A strong cyclic controller need not achieve the goal of the task. -/
theorem not_forall_strongCyclic_achieves :
    ¬ ∀ (file : String) (t : Task) (answer : Answer) (c : Controller) (v : Verdict),
      Sas.parse file = .ok t → Controller.ofAnswer answer t.vars.length = .ok c →
      verify c t = .ok v → v.strongCyclic = true → Achieves c t := by
  intro hall
  exact not_achieves_staying
    (hall lockedDoorFile _ _ staying _ parse_lockedDoorFile ofAnswer_staying verify_staying rfl)

end StrongCyclic.Verification
