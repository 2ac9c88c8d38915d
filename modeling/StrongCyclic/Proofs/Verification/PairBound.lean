import Mathlib.Data.List.Sections
import Mathlib.Data.List.ProdSigma
import Mathlib.Data.List.Perm.Subperm
import Mathlib.Algebra.BigOperators.Group.List.Basic
import StrongCyclic.Proofs.Verification.Simulation

/-!
There are no more than `pairBound` pairs that a run can come to. A planning state keeps its size along
a run, and each of its slots stays undefined or takes a value that the task mentions for it; together
with the controller states, of which there are `Controller.size`, this leaves `pairBound` candidates.
-/

namespace StrongCyclic.Verification

variable {c : Controller} {t : Task}

/-! ### The values along a run -/

/-- A planning state of the size of the initial state whose values all occur in the task. -/
def InRange (t : Task) (s : State) : Prop :=
  s.size = t.initial.size ∧ ∀ var value, s.value? var = some value → value ∈ valuesOf t var

theorem mem_valuesOf_initial {var value : Nat} (h : t.initial.value? var = some value) :
    value ∈ valuesOf t var := by
  simp only [valuesOf, List.mem_eraseDups, List.mem_filterMap]
  exact ⟨_, List.mem_cons_self, h⟩

/-- What an action of an operator of the task mentions is a value of the task. -/
theorem mem_valuesOf_action {action : String} {outcomes : List Action} {outcome : Action}
    {s : State} {var value : Nat} (ht : t.outcomes? action = some outcomes)
    (ho : outcome ∈ outcomes) (hs : s ∈ outcome.precondition :: outcome.effects)
    (h : s.value? var = some value) : value ∈ valuesOf t var := by
  obtain ⟨before, behind, hgroups, -⟩ := List.lookup_eq_some_iff.mp ht
  have hmem : outcome ∈ t.groups.flatMap Prod.snd :=
    List.mem_flatMap.mpr ⟨(action, outcomes), hgroups ▸ by simp, ho⟩
  simp only [valuesOf, List.mem_eraseDups, List.mem_filterMap]
  exact ⟨s, List.mem_cons_of_mem _ (List.mem_flatMap.mpr ⟨outcome, hmem, hs⟩), h⟩

theorem InRange.update {s u : State} (hs : InRange t s)
    (hu : ∀ var value, u.value? var = some value → value ∈ valuesOf t var) :
    InRange t (s.update u) := by
  refine ⟨by rw [State.size_update, hs.1], fun var value h => ?_⟩
  rw [State.value?_update] at h
  split at h
  next =>
    rcases Option.or_eq_some_iff.mp h with h | ⟨-, h⟩
    · exact hu var value h
    · exact hs.2 var value h
  next => cases h

theorem InRange.step {node next : SpaceNode} (h : InRange t node.state)
    (hs : Step c t node next) : InRange t next.state := by
  obtain ⟨action, outcomes, index, outcome, -, ht, hget, hleads⟩ := hs
  have ho := List.mem_of_getElem? hget
  obtain ⟨effect, heffect, -, hnext⟩ := (Action.progress_eq_some_iff ..).mp hleads.progress
  rw [← hnext]
  refine (h.update fun var value hv => ?_).update fun var value hv => ?_
  · exact mem_valuesOf_action ht ho List.mem_cons_self hv
  · exact mem_valuesOf_action ht ho (List.mem_cons_of_mem _ (List.mem_of_getElem? heffect)) hv

theorem Reachable.inRange {node : SpaceNode} (h : Reachable c t node) : InRange t node.state := by
  induction h with
  | refl => exact ⟨rfl, fun _ _ => mem_valuesOf_initial⟩
  | tail _ hs ih => exact ih.step hs

/-! ### Counting the candidates -/

/-- What the slots of a planning state in range can hold. -/
def slotChoices (t : Task) : List (List (Option Nat)) :=
  (List.range t.initial.size).map fun var => none :: (valuesOf t var).map some

/-- All pairs of a controller state and a planning state in range. -/
def candidates (c : Controller) (t : Task) : List SpaceNode :=
  ((c.states.map Prod.fst) ×ˢ (slotChoices t).sections).map fun (id, slots) => ⟨id, ⟨slots⟩⟩

theorem length_sections {α : Type} (choices : List (List α)) :
    choices.sections.length = (choices.map List.length).prod := by
  induction choices with
  | nil => rfl
  | cons choice choices ih => simp [List.sections, List.length_flatMap, ih, Nat.mul_comm]

theorem length_candidates (c : Controller) (t : Task) :
    (candidates c t).length = pairBound c t := by
  have hfold : ∀ (vars : List Nat) (start : Nat),
      vars.foldl (fun bound var => bound * (1 + (valuesOf t var).length)) start =
        start * (vars.map fun var => 1 + (valuesOf t var).length).prod := by
    intro vars
    induction vars with
    | nil => simp
    | cons var vars ih => intro start; simp [ih, Nat.mul_assoc]
  simp [candidates, pairBound, hfold, length_sections, slotChoices, Controller.size,
    List.length_product, Function.comp_def, Nat.add_comm]

theorem mem_slotChoices_sections {s : State} (h : InRange t s) :
    s.slots ∈ (slotChoices t).sections := by
  rw [List.mem_sections, List.forall₂_iff_get]
  refine ⟨by simpa [slotChoices, State.size] using h.1, fun i hi hi' => ?_⟩
  simp only [slotChoices, List.get_eq_getElem, List.getElem_map, List.getElem_range]
  cases hslot : s.slots[i] with
  | none => exact List.mem_cons_self
  | some value =>
    have hvalue : s.value? i = some value := by
      simp [State.value?, List.getElem?_eq_getElem hi, hslot]
    exact List.mem_cons_of_mem _ (List.mem_map_of_mem (h.2 i value hvalue))

theorem Fits.mem_states {node : SpaceNode} (h : Fits c node) :
    node.controller ∈ c.states.map Prod.fst := by
  obtain ⟨declared, hd, -⟩ := h
  obtain ⟨before, behind, hstates, -⟩ := List.lookup_eq_some_iff.mp hd
  simp [hstates]

/-- Distinct pairs of a run that fit are at most `pairBound` many. -/
theorem length_le_pairBound {nodes : List SpaceNode} (hn : nodes.Nodup)
    (hr : ∀ node ∈ nodes, Reachable c t node) (hf : ∀ node ∈ nodes, Fits c node) :
    nodes.length ≤ pairBound c t := by
  have hsubset : nodes ⊆ candidates c t := by
    intro node hmem
    refine List.mem_map.mpr ⟨(node.controller, node.state.slots), ?_, rfl⟩
    exact List.mem_product.mpr
      ⟨(hf node hmem).mem_states, mem_slotChoices_sections (hr node hmem).inRange⟩
  rw [← length_candidates]
  exact (hn.subperm hsubset).length_le

end StrongCyclic.Verification
