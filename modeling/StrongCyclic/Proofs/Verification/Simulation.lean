import Mathlib.Logic.Relation
import StrongCyclic.Verification.Verify

/-!
Runs of a controller on a task, said without the exploration. In a pair that is not at the goal
state the controller performs the action of its policy, and each outcome of the action is a step to
another pair. The controller agrees with the task if no pair of a run shows a disagreement: the
action is an operator of the task, and every outcome can be applied, has a transition and leads to a
planning state with the values that the target declares.

The exploration expands a pair in one go: `expand_eq` splits it into the list of pairs that the
outcomes lead to, which is what can go wrong, and the visits of these pairs, which cannot.
-/

namespace StrongCyclic.Verification

/-- The pair that every run starts from. -/
def root (c : Controller) (t : Task) : SpaceNode :=
  ⟨c.initial, t.initial⟩

/-- The action that the controller performs in a pair. It performs none in its goal state and in
states without a policy. -/
def Performs (c : Controller) (node : SpaceNode) (action : String) : Prop :=
  node.controller ≠ c.goal ∧ c.policy? node.controller = some action

/-- An outcome leads from one pair to another: the planning state progresses, and the controller
follows the transition with the tag of the outcome. -/
structure Leads (c : Controller) (node : SpaceNode) (index : Nat) (outcome : Action)
    (next : SpaceNode) : Prop where
  progress : outcome.progress 0 node.state = some next.state
  successor : c.successor? node.controller (outcomeTag index) = some next.controller

/-- One step of a run. -/
def Step (c : Controller) (t : Task) (node next : SpaceNode) : Prop :=
  ∃ action outcomes index outcome, Performs c node action ∧ t.outcomes? action = some outcomes ∧
    outcomes[index]? = some outcome ∧ Leads c node index outcome next

/-- A run comes to a pair. -/
def Reachable (c : Controller) (t : Task) (node : SpaceNode) : Prop :=
  Relation.ReflTransGen (Step c t) (root c t) node

/-- The planning state of a pair has the values that the controller state declares. -/
def Fits (c : Controller) (node : SpaceNode) : Prop :=
  ∃ declared, c.state? node.controller = some declared ∧ node.state.entails declared = true

/-- The action of a pair is an operator of the task, and each outcome leads to a pair that fits. -/
def AgreesAt (c : Controller) (t : Task) (node : SpaceNode) : Prop :=
  ∀ action, Performs c node action → ∃ outcomes, t.outcomes? action = some outcomes ∧
    ∀ index outcome, outcomes[index]? = some outcome →
      ∃ next, Leads c node index outcome next ∧ Fits c next

/-- The controller agrees with the task at the start and in all pairs of its runs. -/
def Agrees (c : Controller) (t : Task) : Prop :=
  Fits c (root c t) ∧ ∀ node, Reachable c t node → AgreesAt c t node

/-! ### Disagreements -/

/-- The faults that show when an outcome is followed. -/
inductive OutcomeFault (c : Controller) (node : SpaceNode) (action : String) (index : Nat)
    (outcome : Action) : Fault → Prop
  | notApplicable : outcome.progress 0 node.state = none →
    OutcomeFault c node action index outcome (.notApplicable action node.state node.controller)
  | noTransition {state : State} : outcome.progress 0 node.state = some state →
    c.successor? node.controller (outcomeTag index) = none →
    OutcomeFault c node action index outcome
      (.noTransition node.controller action (outcomeTag index))
  | unknownState {next : SpaceNode} : Leads c node index outcome next →
    c.state? next.controller = none →
    OutcomeFault c node action index outcome (.unknownState next.controller)
  | targetMismatch {next : SpaceNode} {declared : State} : Leads c node index outcome next →
    c.state? next.controller = some declared → next.state.entails declared = false →
    OutcomeFault c node action index outcome
      (.targetMismatch next.state action (outcomeTag index) next.controller declared)

/-- The faults that show in a pair. -/
inductive PairFault (c : Controller) (t : Task) (node : SpaceNode) : Fault → Prop
  | unknownAction {action : String} : Performs c node action → t.outcomes? action = none →
    PairFault c t node (.unknownAction action node.controller)
  | outcome {action : String} {outcomes : List Action} {index : Nat} {outcome : Action}
    {fault : Fault} : Performs c node action → t.outcomes? action = some outcomes →
    outcomes[index]? = some outcome → OutcomeFault c node action index outcome fault →
    PairFault c t node fault

/-- The faults that show at the start or in a pair of a run. -/
inductive Disagrees (c : Controller) (t : Task) : Fault → Prop
  | noInitialState : c.state? c.initial = none → Disagrees c t .noInitialState
  | initialMismatch {declared : State} : c.state? c.initial = some declared →
    t.initial.entails declared = false →
    Disagrees c t (.initialMismatch t.initial c.initial declared)
  | pair {node : SpaceNode} {fault : Fault} : Reachable c t node → PairFault c t node fault →
    Disagrees c t fault

theorem Performs.unique {c : Controller} {node : SpaceNode} {a b : String} (ha : Performs c node a)
    (hb : Performs c node b) : a = b :=
  Option.some.inj (ha.2.symm.trans hb.2)

theorem Leads.unique {c : Controller} {node m n : SpaceNode} {index : Nat} {outcome : Action}
    (hm : Leads c node index outcome m) (hn : Leads c node index outcome n) : m = n := by
  have hstate := Option.some.inj (hm.progress.symm.trans hn.progress)
  have hcontroller := Option.some.inj (hm.successor.symm.trans hn.successor)
  cases m; cases n
  simp_all

theorem OutcomeFault.not_leads {c : Controller} {node next : SpaceNode} {action : String}
    {index : Nat} {outcome : Action} {fault : Fault}
    (h : OutcomeFault c node action index outcome fault) (hl : Leads c node index outcome next) :
    ¬ Fits c next := by
  rintro ⟨declared, hstate, hentails⟩
  cases h with
  | notApplicable hp => exact absurd (hp.symm.trans hl.progress) (by simp)
  | noTransition _ hs => exact absurd (hs.symm.trans hl.successor) (by simp)
  | unknownState hl' hnone =>
    rw [hl'.unique hl, hstate] at hnone
    cases hnone
  | targetMismatch hl' hsome hfalse =>
    rw [hl'.unique hl] at hsome hfalse
    rw [hstate] at hsome
    cases hsome
    simp [hentails] at hfalse

theorem PairFault.not_agreesAt {c : Controller} {t : Task} {node : SpaceNode} {fault : Fault}
    (h : PairFault c t node fault) : ¬ AgreesAt c t node := by
  intro hagrees
  cases h with
  | unknownAction hp hnone =>
    obtain ⟨outcomes, hsome, -⟩ := hagrees _ hp
    exact absurd (hnone.symm.trans hsome) (by simp)
  | outcome hp hsome hget hfault =>
    obtain ⟨outcomes, hsome', hall⟩ := hagrees _ hp
    cases hsome.symm.trans hsome'
    obtain ⟨next, hleads, hfits⟩ := hall _ _ hget
    exact hfault.not_leads hleads hfits

/-- A fault is never reported of a controller that agrees with the task. -/
theorem Disagrees.not_agrees {c : Controller} {t : Task} {fault : Fault}
    (h : Disagrees c t fault) : ¬ Agrees c t := by
  rintro ⟨⟨declared, hstate, hentails⟩, hagrees⟩
  cases h with
  | noInitialState hnone => exact absurd (hnone.symm.trans hstate) (by simp)
  | initialMismatch hsome hfalse =>
    cases hsome.symm.trans hstate
    exact absurd (hfalse.symm.trans hentails) (by simp)
  | pair hreach hfault => exact hfault.not_agreesAt (hagrees _ hreach)

/-- Where the controller agrees with the task, every step leads to a pair that fits. -/
theorem AgreesAt.fits {c : Controller} {t : Task} {node next : SpaceNode}
    (h : AgreesAt c t node) (hs : Step c t node next) : Fits c next := by
  obtain ⟨action, outcomes, index, outcome, hp, hsome, hget, hleads⟩ := hs
  obtain ⟨outcomes', hsome', hall⟩ := h action hp
  cases hsome.symm.trans hsome'
  obtain ⟨next', hleads', hfits⟩ := hall index outcome hget
  exact hleads'.unique hleads ▸ hfits

/-- A pair in which no action is performed agrees with every task. -/
theorem agreesAt_of_idle {c : Controller} {node : SpaceNode} (t : Task)
    (hidle : ∀ action, ¬ Performs c node action) : AgreesAt c t node :=
  fun action hp => absurd hp (hidle action)

theorem not_step_of_idle {c : Controller} {t : Task} {node next : SpaceNode}
    (hidle : ∀ action, ¬ Performs c node action) : ¬ Step c t node next := by
  rintro ⟨action, _, _, _, hp, -⟩
  exact hidle action hp

theorem Performs.agreesAt_iff {c : Controller} {t : Task} {node : SpaceNode} {action : String}
    {outcomes : List Action} (hp : Performs c node action)
    (hsome : t.outcomes? action = some outcomes) :
    AgreesAt c t node ↔ ∀ index outcome, outcomes[index]? = some outcome →
      ∃ next, Leads c node index outcome next ∧ Fits c next := by
  constructor
  · intro h
    obtain ⟨outcomes', hsome', hall⟩ := h action hp
    cases hsome.symm.trans hsome'
    exact hall
  · intro hall action' hp'
    rw [hp'.unique hp]
    exact ⟨outcomes, hsome, hall⟩

theorem Performs.step_iff {c : Controller} {t : Task} {node next : SpaceNode} {action : String}
    {outcomes : List Action} (hp : Performs c node action)
    (hsome : t.outcomes? action = some outcomes) :
    Step c t node next ↔ ∃ index outcome, outcomes[index]? = some outcome ∧
      Leads c node index outcome next := by
  constructor
  · rintro ⟨action', outcomes', index, outcome, hp', hsome', hget, hleads⟩
    cases hp'.unique hp
    cases hsome.symm.trans hsome'
    exact ⟨index, outcome, hget, hleads⟩
  · rintro ⟨index, outcome, hget, hleads⟩
    exact ⟨action, outcomes, index, outcome, hp, hsome, hget, hleads⟩

theorem Agrees.fits (h : Agrees c t) {node : SpaceNode} (hr : Reachable c t node) :
    Fits c node := by
  cases hr with
  | refl => exact h.1
  | tail hr hstep => exact (h.2 _ hr).fits hstep

/-! ### The pairs that a pair leads to -/

/-- The pairs that the outcomes from `index` on lead to, in their order. -/
def followEach (c : Controller) (node : SpaceNode) (action : String) :
    Nat → List Action → Except Fault (List SpaceNode)
  | _, [] => .ok []
  | index, outcome :: outcomes =>
    match follow c node action index outcome with
    | .error fault => .error fault
    | .ok next => (followEach c node action (index + 1) outcomes).map (next :: ·)

/-- The pairs that a pair leads to, in the order of the outcomes. -/
def nextPairs (c : Controller) (t : Task) (node : SpaceNode) : Except Fault (List SpaceNode) :=
  if node.controller = c.goal then .ok []
  else match c.policy? node.controller with
    | none => .ok []
    | some action =>
      match t.outcomes? action with
      | none => .error (.unknownAction action node.controller)
      | some outcomes => followEach c node action 0 outcomes

theorem followAll_eq (c : Controller) (node : SpaceNode) (id : Nat) (action : String)
    (outcomes : List Action) (index : Nat) (e : Exploration) :
    followAll c node id action index outcomes e =
      (followEach c node action index outcomes).map (·.foldl (Exploration.visit id) e) := by
  induction outcomes generalizing index e with
  | nil => rfl
  | cons outcome outcomes ih =>
    rw [followAll, followEach]
    cases follow c node action index outcome with
    | error fault => rfl
    | ok next =>
      show followAll c node id action (index + 1) outcomes (e.visit id next) = _
      rw [ih]
      cases followEach c node action (index + 1) outcomes <;> rfl

/-- Expanding a pair fails as finding the pairs it leads to does, and else visits them in turn. -/
theorem expand_eq (c : Controller) (t : Task) (id : Nat) (node : SpaceNode) (e : Exploration) :
    expand c t id node e =
      (nextPairs c t node).map (·.foldl (Exploration.visit id) e) := by
  unfold expand nextPairs
  split
  · rfl
  · cases c.policy? node.controller with
    | none => rfl
    | some action =>
      dsimp only
      cases t.outcomes? action with
      | none => rfl
      | some outcomes => exact followAll_eq c node id action outcomes 0 e

theorem follow_spec (c : Controller) (node : SpaceNode) (action : String) (index : Nat)
    (outcome : Action) :
    match follow c node action index outcome with
    | .ok next => Leads c node index outcome next ∧ Fits c next
    | .error fault => OutcomeFault c node action index outcome fault := by
  unfold follow
  cases hp : outcome.progress 0 node.state with
  | none => exact .notApplicable hp
  | some state =>
    cases hs : c.successor? node.controller (outcomeTag index) with
    | none => exact .noTransition hp hs
    | some id =>
      have hleads : Leads c node index outcome ⟨id, state⟩ := ⟨hp, hs⟩
      cases hd : c.state? id with
      | none => simpa only [hd] using OutcomeFault.unknownState hleads hd
      | some declared =>
        cases he : state.entails declared with
        | true => simpa [hd, he] using ⟨hleads, declared, hd, he⟩
        | false =>
          have hfault : OutcomeFault c node action index outcome _ :=
            .targetMismatch hleads hd he
          simpa [hd, he] using hfault

theorem followEach_spec (c : Controller) (node : SpaceNode) (action : String)
    (outcomes : List Action) (start : Nat) :
    match followEach c node action start outcomes with
    | .ok nexts =>
      (∀ i outcome, outcomes[i]? = some outcome →
        ∃ next ∈ nexts, Leads c node (start + i) outcome next ∧ Fits c next) ∧
      ∀ next ∈ nexts, ∃ i outcome, outcomes[i]? = some outcome ∧
        Leads c node (start + i) outcome next
    | .error fault => ∃ i outcome, outcomes[i]? = some outcome ∧
      OutcomeFault c node action (start + i) outcome fault := by
  induction outcomes generalizing start with
  | nil => simp [followEach]
  | cons outcome outcomes ih =>
    have hfirst := follow_spec c node action start outcome
    have hrest := ih (start + 1)
    rw [followEach]
    cases hf : follow c node action start outcome with
    | error fault =>
      rw [hf] at hfirst
      exact ⟨0, outcome, rfl, hfirst⟩
    | ok next =>
      rw [hf] at hfirst
      cases hr : followEach c node action (start + 1) outcomes with
      | error fault =>
        rw [hr] at hrest
        obtain ⟨i, o, hget, hfault⟩ := hrest
        exact ⟨i + 1, o, hget, by rwa [Nat.add_right_comm] at hfault⟩
      | ok nexts =>
        rw [hr] at hrest
        obtain ⟨hall, honly⟩ := hrest
        refine ⟨fun i o hget => ?_, fun m hm => ?_⟩
        · cases i with
          | zero =>
            cases hget
            exact ⟨next, List.mem_cons_self, hfirst⟩
          | succ i =>
            obtain ⟨m, hm, hleads, hfits⟩ := hall i o hget
            exact ⟨m, List.mem_cons_of_mem _ hm, by rwa [Nat.add_right_comm] at hleads, hfits⟩
        · rcases List.mem_cons.mp hm with rfl | hm
          · exact ⟨0, outcome, rfl, hfirst.1⟩
          · obtain ⟨i, o, hget, hleads⟩ := honly m hm
            exact ⟨i + 1, o, hget, by rwa [Nat.add_right_comm] at hleads⟩

/-- The outcomes of the action of a pair lead to the pairs that its steps lead to. -/
theorem Performs.followEach_spec {c : Controller} {t : Task} {node : SpaceNode} {action : String}
    {outcomes : List Action} (hp : Performs c node action)
    (hsome : t.outcomes? action = some outcomes) :
    match followEach c node action 0 outcomes with
    | .ok nexts => AgreesAt c t node ∧ ∀ next, next ∈ nexts ↔ Step c t node next
    | .error fault => PairFault c t node fault := by
  have hspec := Verification.followEach_spec c node action outcomes 0
  simp only [Nat.zero_add] at hspec
  cases hf : followEach c node action 0 outcomes with
  | error fault =>
    rw [hf] at hspec
    obtain ⟨i, outcome, hget, hfault⟩ := hspec
    exact .outcome hp hsome hget hfault
  | ok nexts =>
    rw [hf] at hspec
    obtain ⟨hall, honly⟩ := hspec
    refine ⟨(hp.agreesAt_iff hsome).mpr fun i outcome hget => ?_, fun next => ?_⟩
    · obtain ⟨next, -, hnext⟩ := hall i outcome hget
      exact ⟨next, hnext⟩
    · rw [hp.step_iff hsome]
      refine ⟨honly next, ?_⟩
      rintro ⟨i, outcome, hget, hleads⟩
      obtain ⟨next', hmem, hleads', -⟩ := hall i outcome hget
      exact hleads'.unique hleads ▸ hmem

/-- The pairs of `nextPairs` are those that a step leads to, and if there are none to be found, the
pair shows the fault. -/
theorem nextPairs_spec (c : Controller) (t : Task) (node : SpaceNode) :
    match nextPairs c t node with
    | .ok nexts => AgreesAt c t node ∧ ∀ next, next ∈ nexts ↔ Step c t node next
    | .error fault => PairFault c t node fault := by
  have hidle (h : ∀ action, ¬ Performs c node action) :
      AgreesAt c t node ∧ ∀ next, next ∈ [] ↔ Step c t node next :=
    ⟨agreesAt_of_idle t h, fun next => ⟨nofun, fun hs => absurd hs (not_step_of_idle h)⟩⟩
  unfold nextPairs
  by_cases hgoal : node.controller = c.goal
  · rw [if_pos hgoal]
    exact hidle fun action hp => hp.1 hgoal
  · rw [if_neg hgoal]
    cases hpolicy : c.policy? node.controller with
    | none => exact hidle fun action hp => nomatch hpolicy.symm.trans hp.2
    | some action =>
      have hp : Performs c node action := ⟨hgoal, hpolicy⟩
      cases hsome : t.outcomes? action with
      | none => simpa only [hsome] using PairFault.unknownAction hp hsome
      | some outcomes => simpa only [hsome] using hp.followEach_spec hsome

end StrongCyclic.Verification
