import StrongCyclic.Proofs.Fallible
import StrongCyclic.Proofs.Verification.StrongCyclicity

/-!
What the declared assignments of a controller are for. Verification compares them with the planning
states that it comes to, and nothing that it finds depends on them: a controller that declares less
goes through the same rounds, to the same verdict. What it may pass and the other one may not are
the comparisons themselves.
-/

namespace StrongCyclic.Verification

/-- The second controller has the states, the transitions and the policy of the first one, and each
of its states declares no more than the same state of the first one. -/
structure Loosens (c c' : Controller) : Prop where
  ids : c'.states.map Prod.fst = c.states.map Prod.fst
  transitions : c'.transitions = c.transitions
  policy : c'.policy = c.policy
  declared : ∀ id declared declared', c.state? id = some declared → c'.state? id = some declared' →
    declared.entails declared' = true

variable {c c' : Controller} {t : Task} {v : Verdict} {node next : SpaceNode}

/-! ### What does not depend on the declarations -/

namespace Loosens

theorem goal_eq (h : Loosens c c') : c'.goal = c.goal := by
  rw [Controller.goal, Controller.goal, h.ids]

theorem policy?_eq (h : Loosens c c') (id : Nat) : c'.policy? id = c.policy? id := by
  rw [Controller.policy?, Controller.policy?, h.policy]

theorem successor?_eq (h : Loosens c c') (id : Nat) (tag : String) :
    c'.successor? id tag = c.successor? id tag := by
  simp only [Controller.successor?, Controller.transitionsFrom, h.transitions]

theorem pairBound_eq (h : Loosens c c') (t : Task) : pairBound c' t = pairBound c t := by
  have hsize : c'.size = c.size := by
    rw [Controller.size, Controller.size, ← List.length_map Prod.fst, h.ids, List.length_map]
  rw [pairBound, pairBound, hsize]

theorem performs_iff (h : Loosens c c') {action : String} :
    Performs c' node action ↔ Performs c node action := by
  rw [Performs, Performs, h.goal_eq, h.policy?_eq]

theorem leads_iff (h : Loosens c c') {index : Nat} {outcome : Action} :
    Leads c' node index outcome next ↔ Leads c node index outcome next := by
  constructor
  · rintro ⟨hprogress, hsuccessor⟩
    exact ⟨hprogress, (h.successor?_eq ..).symm.trans hsuccessor⟩
  · rintro ⟨hprogress, hsuccessor⟩
    exact ⟨hprogress, (h.successor?_eq ..).trans hsuccessor⟩

theorem step_eq (h : Loosens c c') (t : Task) : Step c' t = Step c t := by
  funext node next
  simp only [Step, h.performs_iff, h.leads_iff]

theorem reachable_iff (h : Loosens c c') : Reachable c' t node ↔ Reachable c t node := by
  rw [Reachable, Reachable, h.step_eq t]
  rfl

/-! ### The checks -/

theorem fits (h : Loosens c c') (hf : Fits c node) : Fits c' node := by
  obtain ⟨declared, hstate, hentails⟩ := hf
  have hid : node.controller ∈ c'.states.map Prod.fst := by
    rw [h.ids]
    exact Fits.mem_states ⟨declared, hstate, hentails⟩
  obtain ⟨declared', hstate'⟩ := Option.isSome_iff_exists.mp (IdMap.isSome_lookup_iff.mpr hid)
  exact ⟨declared', hstate', State.entails_trans hentails (h.declared _ _ _ hstate hstate')⟩

end Loosens

theorem follow_eq_ok_iff {action : String} {index : Nat} {outcome : Action} :
    follow c node action index outcome = .ok next ↔
      Leads c node index outcome next ∧ Fits c next := by
  have hspec := follow_spec c node action index outcome
  cases hfollow : follow c node action index outcome with
  | ok found =>
    rw [hfollow] at hspec
    constructor
    · intro heq
      cases heq
      exact hspec
    · rintro ⟨hleads, -⟩
      rw [hspec.1.unique hleads]
  | error fault =>
    rw [hfollow] at hspec
    exact ⟨nofun, fun ⟨hleads, hfits⟩ => absurd hfits (hspec.not_leads hleads)⟩

/-! ### The same rounds -/

namespace Loosens

theorem followEach_eq_ok (h : Loosens c c') {action : String} {outcomes : List Action} {index : Nat}
    {nexts : List SpaceNode} (hrun : followEach c node action index outcomes = .ok nexts) :
    followEach c' node action index outcomes = .ok nexts := by
  induction outcomes generalizing index nexts with
  | nil => exact hrun
  | cons outcome outcomes ih =>
    rw [followEach] at hrun ⊢
    cases hfirst : follow c node action index outcome with
    | error fault =>
      rw [hfirst] at hrun
      cases hrun
    | ok next =>
      rw [hfirst] at hrun
      obtain ⟨rest, hrest, rfl⟩ := Fallible.map_eq_ok.mp hrun
      obtain ⟨hleads, hfits⟩ := follow_eq_ok_iff.mp hfirst
      have hfirst' : follow c' node action index outcome = .ok next :=
        follow_eq_ok_iff.mpr ⟨h.leads_iff.mpr hleads, h.fits hfits⟩
      rw [hfirst']
      exact Fallible.map_eq_ok.mpr ⟨rest, ih hrest, rfl⟩

theorem nextPairs_eq_ok (h : Loosens c c') {nexts : List SpaceNode}
    (hrun : nextPairs c t node = .ok nexts) : nextPairs c' t node = .ok nexts := by
  unfold nextPairs at hrun ⊢
  rw [h.goal_eq, h.policy?_eq]
  split at hrun
  · next hgoal => rwa [if_pos hgoal]
  · next hgoal =>
    rw [if_neg hgoal]
    cases hpolicy : c.policy? node.controller with
    | none => rwa [hpolicy] at hrun
    | some action =>
      simp only [hpolicy] at hrun ⊢
      cases houtcomes : t.outcomes? action with
      | none => rwa [houtcomes] at hrun
      | some outcomes =>
        simp only [houtcomes] at hrun ⊢
        exact h.followEach_eq_ok hrun

theorem expand_eq_ok (h : Loosens c c') {id : Nat} {e e' : Exploration}
    (hrun : expand c t id node e = .ok e') : expand c' t id node e = .ok e' := by
  rw [expand_eq] at hrun ⊢
  obtain ⟨nexts, hnexts, rfl⟩ := Fallible.map_eq_ok.mp hrun
  exact Fallible.map_eq_ok.mpr ⟨nexts, h.nextPairs_eq_ok hnexts, rfl⟩

theorem explore_eq_ok (h : Loosens c c') {rounds : Nat} {e e' : Exploration}
    (hrun : explore c t rounds e = .ok e') : explore c' t rounds e = .ok e' := by
  -- both runs have the same exploration before each round, so its queue decides for both
  induction rounds generalizing e with
  | zero => exact hrun
  | succ rounds ih =>
    rw [explore] at hrun ⊢
    cases hwaiting : e.waiting with
    | nil => simpa only [hwaiting] using hrun
    | cons id waiting =>
      simp only [hwaiting] at hrun ⊢
      cases hnode : e.space.nodes[id]? with
      | none =>
        simp only [hnode] at hrun ⊢
        exact ih hrun
      | some node =>
        simp only [hnode] at hrun ⊢
        obtain ⟨e₁, hexpand, hrest⟩ := Fallible.bind_eq_ok.mp hrun
        exact Fallible.bind_eq_ok.mpr ⟨e₁, h.expand_eq_ok hexpand, ih hrest⟩

theorem solutionSpace_eq_ok (h : Loosens c c') {space : SolutionSpace}
    (hrun : solutionSpace c t = .ok space) : solutionSpace c' t = .ok space := by
  have hspec := solutionSpace_spec c t
  rw [hrun] at hspec
  have hfits : Fits c (root c t) := hspec.1.1
  rw [solutionSpace_eq_of_fits hfits] at hrun
  obtain ⟨e, hexplore, hspace⟩ := Fallible.map_eq_ok.mp hrun
  rw [solutionSpace_eq_of_fits (h.fits hfits), h.pairBound_eq]
  exact Fallible.map_eq_ok.mpr ⟨e, h.explore_eq_ok hexplore, hspace⟩

theorem verify_eq_ok (h : Loosens c c') (hrun : verify c t = .ok v) :
    verify c' t = .ok v := by
  rw [verify_eq] at hrun ⊢
  obtain ⟨space, hspace, hverdict⟩ := Fallible.map_eq_ok.mp hrun
  rw [h.goal_eq]
  exact Fallible.map_eq_ok.mpr ⟨space, h.solutionSpace_eq_ok hspace, hverdict⟩

/-- A controller agrees with the task if one that declares less does and the pairs of the runs fit
what it declares itself. -/
theorem agrees (h : Loosens c c') (ha : Agrees c' t)
    (hfits : ∀ node, Reachable c t node → Fits c node) : Agrees c t := by
  refine ⟨hfits _ .refl, fun node hr action hp => ?_⟩
  obtain ⟨outcomes, hsome, hall⟩ :=
    ha.2 node (h.reachable_iff.mpr hr) action (h.performs_iff.mpr hp)
  refine ⟨outcomes, hsome, fun index outcome hget => ?_⟩
  obtain ⟨next, hleads', -⟩ := hall index outcome hget
  have hleads := h.leads_iff.mp hleads'
  have hstep : Step c t node next :=
    ⟨action, outcomes, index, outcome, hp, hsome, hget, hleads⟩
  exact ⟨next, hleads, hfits next (hr.tail hstep)⟩

end Loosens

/-- A controller has a verdict just if one that declares less has the very same verdict, with the
same nodes in the same order, the same successors and the same distances, and the nodes fit what the
controller itself declares. -/
theorem verify_iff_of_loosens (h : Loosens c c') :
    verify c t = .ok v ↔ verify c' t = .ok v ∧ ∀ node ∈ v.space.nodes, Fits c node := by
  constructor
  · intro hrun
    obtain ⟨hagrees, hsim, -⟩ := verdict_spec hrun
    exact ⟨h.verify_eq_ok hrun, fun node hmem => hagrees.fits ((hsim.mem_nodes_iff node).mp hmem)⟩
  · rintro ⟨hrun, hfits⟩
    obtain ⟨hagrees, hsim, -⟩ := verdict_spec hrun
    have hfits' : ∀ node, Reachable c t node → Fits c node := fun node hr =>
      hfits node ((hsim.mem_nodes_iff node).mpr (h.reachable_iff.mpr hr))
    -- the controller has some verdict, which the other direction turns into that of the other one
    obtain ⟨v', hrun'⟩ := exists_verify_of_agrees (h.agrees hagrees hfits')
    cases hrun.symm.trans (h.verify_eq_ok hrun')
    exact hrun'

/-- The pushing controller, which no longer declares that the door is closed at first. -/
def pushingBlindly : Controller :=
  { pushing with states := [(0, .undefined 1), (1, .ofValues [1])] }

theorem loosens_pushingBlindly : Loosens pushing pushingBlindly where
  ids := rfl
  transitions := rfl
  policy := rfl
  declared id declared declared' hd hd' := by
    match id with
    | 0 => cases hd; cases hd'; decide
    | 1 => cases hd; cases hd'; decide
    | id + 2 => cases hd

theorem verify_iff_of_loosens_pushing_door :
    Loosens pushing pushingBlindly ∧ verify pushing door = .ok pushingVerdict ∧
      verify pushingBlindly door = .ok pushingVerdict :=
  ⟨loosens_pushingBlindly, verify_pushing_door,
    ((verify_iff_of_loosens loosens_pushingBlindly).mp verify_pushing_door).1⟩

end StrongCyclic.Verification
