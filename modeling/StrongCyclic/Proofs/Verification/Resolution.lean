import StrongCyclic.Controller.OfAnswer
import StrongCyclic.Proofs.Verification.StrongCyclicity

/-!
Controllers with a choice of transitions. Verification follows the first transition of a state with
the tag of the outcome, but nothing keeps a controller from having several. A run that may follow
any of them can come to pairs that verification has not seen, and there it need not fit the
declarations or come to the goal state any more. If there is at most one transition for each state
and tag, no run comes to such a pair.
-/

namespace StrongCyclic.Verification

variable {c : Controller} {t : Task} {v : Verdict}

/-- No state has transitions with the same tag to different states. -/
def Unambiguous (c : Controller) : Prop :=
  ∀ u ∈ c.transitions, ∀ w ∈ c.transitions, u.source = w.source → u.tag = w.tag →
    u.target = w.target

instance (c : Controller) : Decidable (Unambiguous c) :=
  inferInstanceAs (Decidable (∀ u ∈ c.transitions, ∀ w ∈ c.transitions, _ → _ → _))

/-- One step of a run that follows any of the transitions with the tag of the outcome. -/
def AnyStep (c : Controller) (t : Task) (node next : SpaceNode) : Prop :=
  ∃ action outcomes index outcome, Performs c node action ∧ t.outcomes? action = some outcomes ∧
    outcomes[index]? = some outcome ∧ outcome.progress 0 node.state = some next.state ∧
    ⟨node.controller, outcomeTag index, next.controller⟩ ∈ c.transitions

/-- The pairs that a run comes to from a pair, whichever transitions it follows, fit the declared
values, and from each of them the goal state can be reached. -/
def SoundFrom (c : Controller) (t : Task) (start : SpaceNode) : Prop :=
  ∀ node, Relation.ReflTransGen (AnyStep c t) start node → Fits c node ∧
    ∃ last, Relation.ReflTransGen (AnyStep c t) node last ∧ last.controller = c.goal

/-! ### The transition that is followed -/

theorem mem_transitions_of_successor? {id target : Nat} {tag : String}
    (h : c.successor? id tag = some target) : ⟨id, tag, target⟩ ∈ c.transitions := by
  obtain ⟨u, hfind, rfl⟩ := Option.map_eq_some_iff.mp h
  have htag : u.tag = tag := by simpa using List.find?_some hfind
  obtain ⟨hmem, hsource⟩ := List.mem_filter.mp (List.mem_of_find?_eq_some hfind)
  have hid : u.source = id := by simpa using hsource
  exact hid ▸ htag ▸ hmem

theorem Unambiguous.successor?_eq (h : Unambiguous c) {id target : Nat} {tag : String}
    (hmem : ⟨id, tag, target⟩ ∈ c.transitions) : c.successor? id tag = some target := by
  cases hs : c.successor? id tag with
  | none =>
    have hfind := Option.map_eq_none_iff.mp hs
    have hfrom : ⟨id, tag, target⟩ ∈ c.transitionsFrom id := List.mem_filter.mpr ⟨hmem, by simp⟩
    simpa using List.find?_eq_none.mp hfind _ hfrom
  | some target' =>
    exact congrArg some (h _ (mem_transitions_of_successor? hs) _ hmem rfl rfl)

theorem Step.anyStep {node next : SpaceNode} (h : Step c t node next) : AnyStep c t node next := by
  obtain ⟨action, outcomes, index, outcome, hp, hsome, hget, hleads⟩ := h
  exact ⟨action, outcomes, index, outcome, hp, hsome, hget, hleads.progress,
    mem_transitions_of_successor? hleads.successor⟩

theorem Unambiguous.step (h : Unambiguous c) {node next : SpaceNode}
    (hstep : AnyStep c t node next) : Step c t node next := by
  obtain ⟨action, outcomes, index, outcome, hp, hsome, hget, hprogress, hmem⟩ := hstep
  exact ⟨action, outcomes, index, outcome, hp, hsome, hget, hprogress, h.successor?_eq hmem⟩

theorem reflTransGen_anyStep {node last : SpaceNode}
    (h : Relation.ReflTransGen (Step c t) node last) :
    Relation.ReflTransGen (AnyStep c t) node last :=
  Relation.ReflTransGen.mono (fun _ _ => Step.anyStep) _ _ h

/-! ### Soundness under every choice -/

theorem SoundFrom.step {node next : SpaceNode} (h : SoundFrom c t node)
    (hstep : AnyStep c t node next) : SoundFrom c t next :=
  fun last hrun => h last (.head hstep hrun)

/-- A run comes to a pair that verification has seen, or it has left these pairs and is sound from
there on. -/
theorem reachable_or_soundFrom (hleave : ∀ node next, Reachable c t node → ¬ Reachable c t next →
      AnyStep c t node next → SoundFrom c t next) {node : SpaceNode}
    (hrun : Relation.ReflTransGen (AnyStep c t) (root c t) node) :
    Reachable c t node ∨ SoundFrom c t node := by
  induction hrun with
  | refl => exact .inl .refl
  | @tail node next _ hstep ih =>
    rcases ih with hr | hsound
    · by_cases hnext : Reachable c t next
      · exact .inl hnext
      · exact .inr (hleave node next hr hnext hstep)
    · exact .inr (hsound.step hstep)

/-- A strong cyclic controller is sound under every choice of its transitions just if it is sound
from each pair that verification has not seen and that a transition leads to from one that it has
seen. There is no such pair if the controller has no choice. -/
theorem strongCyclic_soundFrom_iff (h : verify c t = .ok v) (hstrong : v.strongCyclic = true) :
    (SoundFrom c t (root c t) ↔ ∀ node next, Reachable c t node → ¬ Reachable c t next →
      AnyStep c t node next → SoundFrom c t next) ∧
    (Unambiguous c → SoundFrom c t (root c t)) := by
  obtain ⟨hagrees, -⟩ := verdict_spec h
  have hiff : SoundFrom c t (root c t) ↔ ∀ node next, Reachable c t node →
      ¬ Reachable c t next → AnyStep c t node next → SoundFrom c t next := by
    constructor
    · intro hsound node next hr _ hstep last hrun
      exact hsound last ((reflTransGen_anyStep hr).trans (.head hstep hrun))
    · intro hleave node hrun
      rcases reachable_or_soundFrom hleave hrun with hr | hsound
      · obtain ⟨last, hlast, hgoal⟩ := (strongCyclic_iff h).mp hstrong node hr
        exact ⟨hagrees.fits hr, last, reflTransGen_anyStep hlast, hgoal⟩
      · exact hsound node .refl
  refine ⟨hiff, fun hunambiguous => hiff.mpr fun node next hr hnext hstep => ?_⟩
  exact absurd (hr.tail (hunambiguous.step hstep)) hnext

theorem strongCyclic_soundFrom_pushing_door :
    verify pushing door = .ok pushingVerdict ∧ SoundFrom pushing door (root pushing door) := by
  obtain ⟨-, hunambiguous⟩ := strongCyclic_soundFrom_iff verify_pushing_door rfl
  exact ⟨verify_pushing_door, hunambiguous (by decide)⟩

/-! ### A controller that may walk into a closed door -/

/-- The controller that pushes, and may take the door for open although it has stayed closed. -/
def hasty : Controller :=
  { pushing with transitions := [⟨0, "e1", 0⟩, ⟨0, "e1", 1⟩, ⟨0, "e2", 1⟩] }

/-- The answer that the controller comes from. -/
def hastyAnswer : Answer :=
  ⟨1, [⟨"holds", [.int 0, .int 0, .int 0]⟩, ⟨"holds", [.int 1, .int 0, .int 1]⟩,
    ⟨"policy", [.int 0, .str "push()"]⟩, ⟨"transition", [.int 0, .str "e1", .int 0]⟩,
    ⟨"transition", [.int 0, .str "e1", .int 1]⟩, ⟨"transition", [.int 0, .str "e2", .int 1]⟩]⟩

theorem ofAnswer_hastyAnswer : Controller.ofAnswer hastyAnswer 1 = .ok hasty := by
  decide +kernel

/-- Verification does not tell the controller from the one without a choice. -/
theorem verify_hasty_door : verify hasty door = .ok pushingVerdict := by
  decide +kernel

theorem anyStep_hasty_door : AnyStep hasty door (root hasty door) ⟨1, .ofValues [0]⟩ :=
  ⟨"push()", [push "push_DETDUP_0" 0 [], push "push_DETDUP_1" 1 [⟨0, some 0, 1⟩]], 0,
    push "push_DETDUP_0" 0 [], ⟨by decide, by decide⟩, by decide +kernel, rfl, by decide,
    by decide +kernel⟩

theorem not_soundFrom_hasty_door : ¬ SoundFrom hasty door (root hasty door) := by
  intro hsound
  obtain ⟨⟨declared, hdeclared, hentails⟩, -⟩ := hsound _ (.single anyStep_hasty_door)
  cases hdeclared
  exact absurd hentails (by decide)

/-- A strong cyclic controller need not be sound under every choice of its transitions. -/
theorem not_forall_strongCyclic_soundFrom :
    ¬ ∀ (t : Task) (answer : Answer) (c : Controller) (v : Verdict),
      Controller.ofAnswer answer t.vars.length = .ok c → verify c t = .ok v →
      v.strongCyclic = true → SoundFrom c t (root c t) := by
  intro hall
  exact not_soundFrom_hasty_door
    (hall door hastyAnswer hasty _ ofAnswer_hastyAnswer verify_hasty_door rfl)

end StrongCyclic.Verification
