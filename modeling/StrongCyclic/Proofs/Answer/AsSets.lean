import StrongCyclic.Guidance.Backbone
import StrongCyclic.Proofs.Collection.Canonical
import StrongCyclic.Proofs.Controller.OfAnswer

/-!
Answers are sets of atoms. A controller is determined by what it is described with, so if no slot is
given two values and no state two actions, in which order the atoms stand and how often does not count.
A backbone takes every step as often as it is listed, but sorts them by their numbers, so if these are
all different their order does not count either.
-/

namespace StrongCyclic

open Fallible (bind_eq_ok pure_eq_ok mapM_eq_ok exists_mapM_of_perm toOption_eq_some)

/-! ### Entries that agree -/

/-- The atoms do not give two values. -/
def GivesOne {β : Type} (gives : Atom → β → Prop) (atoms : List Atom) : Prop :=
  ∀ a ∈ atoms, ∀ b ∈ atoms, ∀ value other, gives a value → gives b other → value = other

/-- The atoms do not give two values for a variable in a state, nor two actions for a state. -/
structure Functional (atoms : List Atom) : Prop where
  holds : ∀ id var, GivesOne (fun a => a.Holds id var) atoms
  policy : ∀ id, GivesOne (fun a => a.Chooses id) atoms

section SameAtoms

variable {β : Type} {gives : Atom → β → Prop} {atoms atoms' : List Atom} {value : β}

theorem GivesOne.lastGiven_iff (h : GivesOne gives atoms) :
    LastGiven gives atoms value ↔ ∃ a ∈ atoms, gives a value := by
  refine ⟨LastGiven.exists_mem, fun ⟨a, ha, hgives⟩ => ?_⟩
  obtain ⟨other, hlast⟩ := exists_lastGiven ⟨a, ha, value, hgives⟩
  obtain ⟨b, hb, hother⟩ := hlast.exists_mem
  exact h a ha b hb value other hgives hother ▸ hlast

variable (hsame : ∀ a, a ∈ atoms' ↔ a ∈ atoms)

include hsame

theorem GivesOne.congr (h : GivesOne gives atoms) : GivesOne gives atoms' :=
  fun a ha b hb => h a ((hsame a).mp ha) b ((hsame b).mp hb)

theorem Functional.congr (h : Functional atoms) : Functional atoms' :=
  ⟨fun id var => (h.holds id var).congr hsame, fun id => (h.policy id).congr hsame⟩

theorem GivesOne.lastGiven_congr (h : GivesOne gives atoms) :
    LastGiven gives atoms' value ↔ LastGiven gives atoms value := by
  rw [(h.congr hsame).lastGiven_iff, h.lastGiven_iff]
  simp only [hsame]

end SameAtoms

/-! ### Controllers -/

namespace Transition

theorem eq_of_mem_iff {ts us : List Transition} (hts : ts.Pairwise (·.before ·))
    (hus : us.Pairwise (·.before ·)) (h : ∀ t, t ∈ ts ↔ t ∈ us) : ts = us := by
  have hirrefl : Std.Irrefl fun t u : Transition => t.before u = true :=
    ⟨fun t => by simp [before_irrefl]⟩
  have hantisymm : Std.Antisymm fun t u : Transition => t.before u = true :=
    ⟨fun t u htu hut => absurd (before_trans htu hut) (by simp [before_irrefl])⟩
  exact List.Pairwise.eq_of_mem_iff hts hus h

end Transition

namespace Controller

variable {n : Nat} {c c' : Controller} {answer : Answer}

theorem policy_increasing_of_ofAnswer (h : ofAnswer answer n = .ok c) :
    IdMap.Increasing c.policy := by
  obtain ⟨c₀, hatoms, hfinish⟩ := ofAnswer_eq_ok.mp h
  obtain ⟨-, -, -, rfl⟩ := finish_eq_ok.mp hfinish
  exact (Collected.foldlM_addAtom hatoms).policy_increasing

theorem Describes.state?_eq (h : Describes answer n c) (h' : Describes answer n c')
    (hc : Consistent n c) (hc' : Consistent n c') {id : Nat} {s : State}
    (hs : c.state? id = some s) : c'.state? id = some s := by
  have hid : id ∈ c'.ids :=
    (h'.mem_ids_iff id).mpr ((h.mem_ids_iff id).mp (Controller.mem_ids_iff.mpr ⟨s, hs⟩))
  obtain ⟨s', hs'⟩ := Controller.mem_ids_iff.mp hid
  have hsize : s'.size = s.size := (hc'.size_eq id s' hs').trans (hc.size_eq id s hs).symm
  rw [hs', State.eq_of_value? hsize fun var => Option.ext fun value =>
    (h'.value?_iff id s' hs' var value).trans (h.value?_iff id s hs var value).symm]

/-- An answer describes one controller. -/
theorem Describes.unique (h : Describes answer n c) (h' : Describes answer n c')
    (hc : Consistent n c) (hc' : Consistent n c') (hpolicy : IdMap.Increasing c.policy)
    (hpolicy' : IdMap.Increasing c'.policy) : c = c' := by
  have hstate : ∀ id, c.state? id = c'.state? id := fun id =>
    Option.ext fun s => ⟨h.state?_eq h' hc hc', h'.state?_eq h hc' hc⟩
  have hstates : c.states = c'.states :=
    IdMap.eq_of_lookup hc.states_increasing hc'.states_increasing hstate
  have hactions : c.policy = c'.policy := by
    refine IdMap.eq_of_lookup hpolicy hpolicy' fun id => Option.ext fun action => ?_
    exact (h.policy?_iff id action).trans (h'.policy?_iff id action).symm
  have htransitions : c.transitions = c'.transitions :=
    Transition.eq_of_mem_iff hc.sorted hc'.sorted fun t =>
      (h.mem_transitions_iff t).trans (h'.mem_transitions_iff t).symm
  obtain ⟨answer₁, n₁, states, transitions, policy⟩ := c
  obtain ⟨answer₂, n₂, states', transitions', policy'⟩ := c'
  obtain rfl : answer₁ = answer₂ := h.answer_eq.trans h'.answer_eq.symm
  obtain rfl : n₁ = n₂ := h.numVariables_eq.trans h'.numVariables_eq.symm
  subst hstates hactions htransitions
  rfl

variable {number : Nat} {atoms atoms' : List Atom}

theorem names_congr (hsame : ∀ a, a ∈ atoms' ↔ a ∈ atoms) {id : Nat} :
    Names atoms' id ↔ Names atoms id := by
  simp only [Names, hsame]

theorem faulty_congr (hsame : ∀ a, a ∈ atoms' ↔ a ∈ atoms) : Faulty n atoms' ↔ Faulty n atoms := by
  rw [← not_iff_not, not_faulty_iff, not_faulty_iff]
  simp only [names_congr hsame, hsame]

theorem Describes.congr (hsame : ∀ a, a ∈ atoms' ↔ a ∈ atoms) (hone : Functional atoms)
    (h : Describes ⟨number, atoms⟩ n c) : Describes ⟨number, atoms'⟩ n c where
  answer_eq := h.answer_eq
  numVariables_eq := h.numVariables_eq
  mem_ids_iff id := (h.mem_ids_iff id).trans (names_congr hsame).symm
  value?_iff id s hs var value :=
    (h.value?_iff id s hs var value).trans ((hone.holds id var).lastGiven_congr hsame).symm
  policy?_iff id action :=
    (h.policy?_iff id action).trans ((hone.policy id).lastGiven_congr hsame).symm
  mem_transitions_iff t := by simp only [h.mem_transitions_iff, hsame]

theorem ofAnswer_of_same_atoms (hsame : ∀ a, a ∈ atoms' ↔ a ∈ atoms) (hone : Functional atoms)
    (h : ofAnswer ⟨number, atoms⟩ n = .ok c) : ofAnswer ⟨number, atoms'⟩ n = .ok c := by
  have hfaulty : ¬ Faulty n atoms' := mt (faulty_congr hsame).mp (exists_ofAnswer_iff.mp ⟨c, h⟩)
  have hexists : ∃ c', ofAnswer ⟨number, atoms'⟩ n = .ok c' := exists_ofAnswer_iff.mpr hfaulty
  obtain ⟨c', hc'⟩ := hexists
  obtain ⟨hdescribes, hconsistent⟩ := describes_of_ofAnswer h
  obtain ⟨hdescribes', hconsistent'⟩ := describes_of_ofAnswer hc'
  rw [hc', (hdescribes.congr hsame hone).unique hdescribes' hconsistent hconsistent'
    (policy_increasing_of_ofAnswer h) (policy_increasing_of_ofAnswer hc')]

end Controller

/-! ### Backbones -/

namespace Backbone

variable {number : Nat} {atoms atoms' : List Atom} {b : Backbone}

theorem step_of_stepOf {a : Atom} {step : Option BackboneStep} (h : stepOf a = .ok step) :
    step.map BackboneStep.step = a.index? 0 := by
  unfold stepOf at h
  unfold Atom.index?
  split at h
  · cases h
  · next value hvalue =>
    rw [hvalue, Option.bind_some]
    split at h
    · next hneg =>
      cases h
      rw [if_neg (by omega)]
      rfl
    · next hneg =>
      rw [if_pos (by omega)]
      split at h
      · cases h
        rfl
      · cases h

/-- The numbers of the steps are those of the atoms. -/
theorem steps_of_mapM {steps : List (Option BackboneStep)} (h : atoms.mapM stepOf = .ok steps) :
    (steps.filterMap id).map BackboneStep.step = atoms.filterMap (·.index? 0) := by
  rw [mapM_eq_ok] at h
  induction h with
  | nil => rfl
  | @cons a step atoms steps hstep _ ih =>
    rw [List.filterMap_cons, List.filterMap_cons, ← step_of_stepOf hstep]
    cases step with
    | none => exact ih
    | some step => exact congrArg (step.step :: ·) ih

/-- The numbers of the steps that the atoms list. -/
def listedSteps (atoms : List Atom) : List Nat :=
  (atoms.filter (·.is "policy" 3)).filterMap (·.index? 0)

theorem ofAnswer_of_perm (hperm : atoms'.Perm atoms) (hsteps : (listedSteps atoms).Nodup)
    (h : ofAnswer ⟨number, atoms⟩ = .ok b) : ofAnswer ⟨number, atoms'⟩ = .ok b := by
  obtain ⟨steps, hmap, h⟩ := bind_eq_ok.mp h
  obtain rfl := pure_eq_ok.mp h
  obtain ⟨steps', hmap', hperm'⟩ := exists_mapM_of_perm (hperm.filter _) hmap
  refine bind_eq_ok.mpr ⟨steps', hmap', pure_eq_ok.mpr ?_⟩
  have hnodup : ((steps.filterMap id).map BackboneStep.step).Nodup := by
    rwa [steps_of_mapM hmap]
  rw [Sorted.sortBy_eq_of_perm (hperm'.symm.filterMap id) hnodup]

end Backbone

/-! ### Answers -/

namespace Answer

/-- Reading a controller from an answer whose entries are functional depends on the set of its atoms
only: from any list of the same atoms it succeeds just if it did, and gives the same controller. Reading
a backbone from an answer whose steps have different numbers does not depend on the order of its
atoms. -/
theorem readAsSet (number : Nat) (atoms atoms' : List Atom) :
    (Functional atoms → (∀ a, a ∈ atoms' ↔ a ∈ atoms) →
      ∀ n, (Controller.ofAnswer ⟨number, atoms'⟩ n).toOption =
        (Controller.ofAnswer ⟨number, atoms⟩ n).toOption) ∧
    ((Backbone.listedSteps atoms).Nodup → atoms'.Perm atoms →
      (Backbone.ofAnswer ⟨number, atoms'⟩).toOption =
        (Backbone.ofAnswer ⟨number, atoms⟩).toOption) := by
  refine ⟨fun hone hsame n => Option.ext fun c => ?_, fun hsteps hperm => Option.ext fun b => ?_⟩
  · rw [toOption_eq_some, toOption_eq_some]
    refine ⟨fun h => ?_, Controller.ofAnswer_of_same_atoms hsame hone⟩
    exact Controller.ofAnswer_of_same_atoms (fun a => (hsame a).symm) (hone.congr hsame) h
  · rw [toOption_eq_some, toOption_eq_some]
    refine ⟨fun h => ?_, Backbone.ofAnswer_of_perm hperm hsteps⟩
    have hsteps' : (Backbone.listedSteps atoms').Nodup :=
      (((hperm.filter _).filterMap _).nodup_iff).mpr hsteps
    exact Backbone.ofAnswer_of_perm hperm.symm hsteps' h

/-- The atoms of a controller that pushes a door until it is open. -/
def pushingAtoms : List Atom :=
  [⟨"holds", [.int 0, .int 0, .int 0]⟩, ⟨"holds", [.int 1, .int 0, .int 1]⟩,
    ⟨"policy", [.int 0, .str "push()"]⟩, ⟨"transition", [.int 0, .sym "e1", .int 1]⟩]

/-- The atoms of a plan of two steps, with a step that stands for nothing. -/
def planAtoms : List Atom :=
  [⟨"policy", [.int 1, .str "push()", .sym "e2"]⟩, ⟨"policy", [.int (-1), .str "", .str ""]⟩,
    ⟨"policy", [.int 0, .str "unlock()", .sym "e1"]⟩]

theorem functional_pushingAtoms : Functional pushingAtoms := by
  have hholds : ∀ a ∈ pushingAtoms, ∀ id var value, a.Holds id var value → id = value := by
    rw [pushingAtoms, List.forall_mem_cons, List.forall_mem_cons, List.forall_mem_cons,
      List.forall_mem_singleton]
    refine ⟨fun id var value h => ?_, fun id var value h => ?_, fun id var value h => ?_,
      fun id var value h => ?_⟩
    · exact Option.some.inj (h.2.1.symm.trans h.2.2.2)
    · exact Option.some.inj (h.2.1.symm.trans h.2.2.2)
    · exact absurd h.1 (by decide)
    · exact absurd h.1 (by decide)
  have hpolicy : ∀ a ∈ pushingAtoms, ∀ id action, a.Chooses id action → action = "push()" := by
    rw [pushingAtoms, List.forall_mem_cons, List.forall_mem_cons, List.forall_mem_cons,
      List.forall_mem_singleton]
    refine ⟨fun id action h => ?_, fun id action h => ?_, fun id action h => ?_,
      fun id action h => ?_⟩
    · exact absurd h.1 (by decide)
    · exact absurd h.1 (by decide)
    · exact (Option.some.inj h.2.2).symm
    · exact absurd h.1 (by decide)
  constructor
  · intro id var a ha b hb value other hvalue hother
    exact (hholds a ha id var value hvalue).symm.trans (hholds b hb id var other hother)
  · intro id a ha b hb action other haction hother
    exact (hpolicy a ha id action haction).trans (hpolicy b hb id other hother).symm

theorem readAsSet_pushingAtoms :
    Functional pushingAtoms ∧ (Backbone.listedSteps planAtoms).Nodup ∧
      (Controller.ofAnswer ⟨1, pushingAtoms⟩ 1).toOption.isSome = true ∧
      (Controller.ofAnswer ⟨1, pushingAtoms.reverse ++ pushingAtoms⟩ 1).toOption =
        (Controller.ofAnswer ⟨1, pushingAtoms⟩ 1).toOption ∧
      (Backbone.ofAnswer ⟨1, planAtoms.reverse⟩).toOption =
        (Backbone.ofAnswer ⟨1, planAtoms⟩).toOption := by
  have hsame : ∀ a, a ∈ pushingAtoms.reverse ++ pushingAtoms ↔ a ∈ pushingAtoms := by
    simp
  have hsteps : (Backbone.listedSteps planAtoms).Nodup := by decide
  exact ⟨functional_pushingAtoms, hsteps, by decide,
    (readAsSet 1 _ _).1 functional_pushingAtoms hsame 1,
    (readAsSet 1 _ _).2 hsteps (List.reverse_perm _)⟩

-- Where a slot is given two values, the order decides.
example :
    Controller.ofAnswer ⟨1, [⟨"holds", [.int 0, .int 0, .int 0]⟩,
      ⟨"holds", [.int 0, .int 0, .int 1]⟩]⟩ 1 ≠
    Controller.ofAnswer ⟨1, [⟨"holds", [.int 0, .int 0, .int 1]⟩,
      ⟨"holds", [.int 0, .int 0, .int 0]⟩]⟩ 1 := by
  decide

end Answer

end StrongCyclic
