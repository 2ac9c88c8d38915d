import StrongCyclic.Proofs.Encoding.EffectMeaning
import StrongCyclic.Proofs.Verification.StrongCyclicity

/-!
The planning states of a solution space. Progression takes a partial state as well and defines more
of it, but no run of a task that is read from a file comes to one: the initial state is full, and an
outcome that can be applied in a full state leads to a full state. In a full state the test for
consistency with a precondition is the test for the precondition, so the edges of the space stem
from outcomes whose preconditions hold.
-/

namespace StrongCyclic.Verification

variable {c : Controller} {t : Task} {v : Verdict} {node next : SpaceNode} {action : String}
  {outcomes : List Action} {index : Nat} {outcome : Action}

/-! ### Full states along a run -/

/-- An outcome that leads on from a full state has its precondition there, and leads to a full
state. -/
theorem Leads.full (ht : t.WellFormed) (hsome : t.outcomes? action = some outcomes)
    (hget : outcomes[index]? = some outcome) (h : Leads c node index outcome next)
    (hfull : node.state.Full t.domainSizes) :
    node.state.entails outcome.precondition = true ∧ next.state.Full t.domainSizes := by
  have hgroup := ht.mem_groups_iff.mpr hsome
  obtain ⟨-, hgrounded⟩ := ht.grounded _ _ hgroup outcome (List.mem_of_getElem? hget)
  obtain ⟨effect, -, heffect, -⟩ := hgrounded.effect
  have hentails : node.state.entails outcome.precondition = true :=
    (hgrounded.exists_progress_iff hfull.size_eq hfull.isPartial).mp ⟨_, h.progress⟩
  -- progression is a function, so the state it is known to come to is the one of `next`
  obtain ⟨state, hprogress, hstate, -⟩ := hgrounded.progress heffect hfull hentails
  rw [h.progress] at hprogress
  cases hprogress
  exact ⟨hentails, hstate⟩

/-- The runs of a controller on a well-formed task only come to full states. -/
theorem full_of_reachable (ht : t.WellFormed) (h : Reachable c t node) :
    node.state.Full t.domainSizes := by
  induction h with
  | refl => exact ht.initial
  | tail _ hstep ih =>
    obtain ⟨action, outcomes, index, outcome, -, hsome, hget, hleads⟩ := hstep
    exact (hleads.full ht hsome hget ih).2

/-- Where the controller agrees with the task, all outcomes of its action have their
preconditions. -/
theorem AgreesAt.entails_precondition (h : AgreesAt c t node) (ht : t.WellFormed)
    (hfull : node.state.Full t.domainSizes) (hp : Performs c node action)
    (hsome : t.outcomes? action = some outcomes) (hget : outcomes[index]? = some outcome) :
    node.state.entails outcome.precondition = true := by
  obtain ⟨next, hleads, -⟩ := (hp.agreesAt_iff hsome).mp h index outcome hget
  exact (hleads.full ht hsome hget hfull).1

/-! ### The solution space -/

/-- In a full state, what an action of the task requires is consistent with the state just if it
holds there. -/
theorem consistent_iff_entails_of_hasAction (ht : t.InDomains) {s : State}
    (hfull : s.Full t.domainSizes) {a : Action} (ha : t.HasAction a) :
    s.consistent a.precondition = true ↔ s.entails a.precondition = true := by
  have hsize := (ht.actions a ha).precondition.size_eq
  exact State.consistent_iff_entails hfull.isPartial (by rw [hsize, hfull.size_eq])

/-- In each node of the solution space of a task that is read from a file, the planning state
defines all variables within their domains, has the values that the controller state declares, and
is consistent with what an action requires just if that holds. What the outcomes of the action of a
node require does hold there, and each edge stems from one of these outcomes. -/
theorem space_full_of_verify {file : String} (hparse : Sas.parse file = .ok t)
    (h : verify c t = .ok v) :
    (∀ node ∈ v.space.nodes, node.state.Full t.domainSizes ∧ Fits c node ∧
      ∀ a, t.HasAction a →
        (node.state.consistent a.precondition = true ↔
          node.state.entails a.precondition = true)) ∧
    (∀ node ∈ v.space.nodes, ∀ action outcomes, Performs c node action →
      t.outcomes? action = some outcomes → ∀ outcome ∈ outcomes,
        node.state.entails outcome.precondition = true) ∧
    ∀ (id : Nat) (node : SpaceNode) (target : Nat), v.space.nodes[id]? = some node →
      target ∈ v.space.successorsOf id →
      ∃ (next : SpaceNode) (action : String) (outcomes : List Action) (index : Nat)
        (outcome : Action), v.space.nodes[target]? = some next ∧ Performs c node action ∧
          t.outcomes? action = some outcomes ∧ outcomes[index]? = some outcome ∧
          Leads c node index outcome next ∧ node.state.entails outcome.precondition = true := by
  have ht := Sas.inDomains_of_parse hparse
  obtain ⟨hagrees, hsim, -⟩ := verdict_spec h
  have hreach : ∀ node ∈ v.space.nodes, Reachable c t node := fun node =>
    (hsim.mem_nodes_iff node).mp
  have hfull : ∀ node ∈ v.space.nodes, node.state.Full t.domainSizes := fun node hmem =>
    full_of_reachable ht.toWellFormed (hreach node hmem)
  refine ⟨?_, ?_, ?_⟩
  · intro node hmem
    exact ⟨hfull node hmem, hagrees.fits (hreach node hmem),
      fun a ha => consistent_iff_entails_of_hasAction ht (hfull node hmem) ha⟩
  · intro node hmem action outcomes hp hsome outcome ho
    obtain ⟨index, hget⟩ := List.mem_iff_getElem?.mp ho
    exact (hagrees.2 node (hreach node hmem)).entails_precondition ht.toWellFormed
      (hfull node hmem) hp hsome hget
  · intro id node target hid htarget
    obtain ⟨next, hnext, action, outcomes, index, outcome, hp, hsome, hget, hleads⟩ :=
      (hsim.mem_successorsOf_iff id node target hid).mp htarget
    have hentails :=
      (hleads.full ht.toWellFormed hsome hget (hfull node (List.mem_of_getElem? hid))).1
    exact ⟨next, action, outcomes, index, outcome, hnext, hp, hsome, hget, hleads, hentails⟩

theorem space_full_of_verify_pushing_door :
    Sas.parse Encoding.stickingDoorFile = .ok door ∧ verify pushing door = .ok pushingVerdict ∧
      ∀ outcome ∈ [push "push_DETDUP_0" 0 [], Encoding.openingPush],
        (State.ofValues [0]).entails outcome.precondition = true := by
  obtain ⟨-, houtcomes, -⟩ :=
    space_full_of_verify Encoding.parse_stickingDoorFile verify_pushing_door
  exact ⟨Encoding.parse_stickingDoorFile, verify_pushing_door,
    houtcomes (root pushing door) (.head _) "push()" _ ⟨by decide, rfl⟩ (by decide)⟩

end StrongCyclic.Verification
