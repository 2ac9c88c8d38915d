import Mathlib.Data.Set.Basic
import StrongCyclic.Proofs.Planning.WellFormed

/-!
Progression of fully defined states, and the add and delete list of an effect. In a state that
defines every variable, to be consistent with a precondition is to entail it, and the state after an
effect is the state before it with the values of the effect.
-/

namespace StrongCyclic

namespace State

theorem isPartial_eq_false_iff {s : State} :
    s.isPartial = false ↔ ∀ var < s.size, ∃ value, s.value? var = some value := by
  simp only [isPartial, size, value?, List.any_eq_false, List.mem_iff_getElem, Bool.not_eq_true,
    Option.isNone_eq_false_iff, Option.isSome_iff_exists]
  constructor
  · intro h var hvar
    simpa [List.getD_eq_getElem?_getD, hvar] using h _ ⟨var, hvar, rfl⟩
  · rintro h slot ⟨var, hvar, rfl⟩
    simpa [List.getD_eq_getElem?_getD, hvar] using h var hvar

theorem Full.isPartial {sizes : List Nat} {s : State} (h : s.Full sizes) : s.isPartial = false :=
  isPartial_eq_false_iff.mpr fun var hvar => h.defined var (h.size_eq ▸ hvar)

theorem consistent_iff (s t : State) :
    s.consistent t = true ↔
      ∀ var a b, s.value? var = some a → t.value? var = some b → a = b := by
  simp only [consistent, List.all_eq_true, List.mem_range]
  constructor
  · intro h var a b ha hb
    have hvar := h var (Nat.lt_of_lt_of_le (lt_size_of_value? ha) (Nat.le_max_left ..))
    simpa [ha, hb] using hvar
  · intro h var _
    cases ha : s.value? var with
    | none => rfl
    | some a =>
      cases hb : t.value? var with
      | none => rfl
      | some b => simpa using h var a b ha hb

theorem consistent_of_entails {s t : State} (h : s.entails t = true) : s.consistent t = true := by
  rw [consistent_iff]
  intro var a b ha hb
  exact Option.some.inj (ha.symm.trans ((entails_iff s t).mp h var b hb))

/-- A fully defined state is consistent with just the states that it entails. -/
theorem consistent_iff_entails {s t : State} (hs : s.isPartial = false) (hsize : t.size ≤ s.size) :
    s.consistent t = true ↔ s.entails t = true := by
  refine ⟨fun h => (entails_iff s t).mpr fun var value hvalue => ?_, consistent_of_entails⟩
  have hvar : var < s.size := (lt_size_of_value? hvalue).trans_le hsize
  obtain ⟨held, hheld⟩ := isPartial_eq_false_iff.mp hs var hvar
  rw [hheld, (consistent_iff s t).mp h var held value hheld hvalue]

/-- The facts of a state: the defined variables with their values. -/
def facts (s : State) : Set (Nat × Nat) :=
  {fact | s.value? fact.1 = some fact.2}

@[simp] theorem mem_facts {s : State} {var value : Nat} :
    (var, value) ∈ s.facts ↔ s.value? var = some value :=
  Iff.rfl

end State

namespace Strips

theorem mem_deletedBy {old : Option Nat} {domainSize next value : Nat} :
    value ∈ deletedBy old domainSize next ↔
      old = some value ∨ old = none ∧ value < domainSize ∧ value ≠ next := by
  cases old with
  | none => simp [deletedBy]
  | some old => rw [deletedBy, List.mem_singleton, Option.some.injEq, eq_comm]; simp

theorem mem_deleted {s : Strips} {var value : Nat} :
    (var, value) ∈ s.deleted ↔ ∃ values, s.delete[var]? = some values ∧ value ∈ values := by
  simp only [deleted, List.mem_flatten, List.mem_mapIdx, List.getElem?_eq_some_iff]
  constructor
  · rintro ⟨_, ⟨var', hvar, rfl⟩, hmem⟩
    obtain ⟨value', hvalue, heq⟩ := List.mem_map.mp hmem
    cases heq
    exact ⟨_, ⟨hvar, rfl⟩, hvalue⟩
  · rintro ⟨values, ⟨hvar, rfl⟩, hvalue⟩
    exact ⟨_, ⟨var, hvar, rfl⟩, List.mem_map.mpr ⟨value, hvalue, rfl⟩⟩

/-- An effect deletes the old value of each variable that it sets, or all values but the new one if
no old value is known. -/
theorem mem_deleted_derive {precondition effect : State} {sizes : List Nat} {var value : Nat} :
    (var, value) ∈ (derive precondition effect sizes).deleted ↔
      ∃ next, effect.value? var = some next ∧
        (precondition.value? var = some value ∨
          precondition.value? var = none ∧ value < sizes.getD var 0 ∧ value ≠ next) := by
  rw [mem_deleted]
  simp only [derive, List.getElem?_mapIdx, State.value?, List.getD_eq_getElem?_getD]
  cases effect.slots[var]? with
  | none => simp
  | some slot =>
    cases slot with
    | none => simp
    | some next => simp [mem_deletedBy]

/-- In a state that satisfies the precondition, the add and delete list of an effect change the
facts as the effect changes the values. -/
theorem apply_derive {sizes : List Nat} {precondition effect s : State}
    (hs : s.InDomains sizes) (hpre : s.entails precondition = true) {var value : Nat} :
    (effect.value? var).or (s.value? var) = some value ↔
      s.value? var = some value ∧ (var, value) ∉ (derive precondition effect sizes).deleted ∨
        effect.value? var = some value := by
  rw [mem_deleted_derive]
  cases heffect : effect.value? var with
  | none => simp
  | some next =>
    simp only [Option.some_or, Option.some.injEq, exists_eq_left', not_or]
    constructor
    · exact .inr
    · rintro (⟨hvalue, hnot, hall⟩ | h)
      · cases hprecondition : precondition.value? var with
        | none =>
          by_contra hne
          exact hall ⟨hprecondition, hs.value_lt var value hvalue, Ne.symm hne⟩
        | some old =>
          have hold := (State.entails_iff s precondition).mp hpre var old hprecondition
          exact absurd (hprecondition.trans (hold.symm.trans hvalue)) hnot
      · exact h

end Strips

namespace Action

/-- The precondition and the effects have one slot for each of `n` variables. -/
structure Over (n : Nat) (a : Action) : Prop where
  precondition : a.precondition.size = n
  effects : ∀ effect ∈ a.effects, effect.size = n

/-- What progression through an effect makes of a state. -/
def progressed (a : Action) (effect s : State) : State :=
  (s.update a.precondition).update effect

variable {n : Nat} {sizes : List Nat} {a : Action} {effect s : State}

@[simp] theorem size_progressed (a : Action) (effect s : State) :
    (a.progressed effect s).size = s.size := by
  rw [progressed, State.size_update, State.size_update]

theorem Over.value?_progressed (ha : a.Over n) (heffect : effect ∈ a.effects) (hs : s.size = n)
    (var : Nat) :
    (a.progressed effect s).value? var =
      (effect.value? var).or ((a.precondition.value? var).or (s.value? var)) := by
  rw [progressed, State.value?_update_of_size_le, State.value?_update_of_size_le]
  · rw [ha.precondition, hs]
  · rw [State.size_update, ha.effects effect heffect, hs]

theorem Over.value?_progressed_of_entails (ha : a.Over n) (heffect : effect ∈ a.effects)
    (hs : s.size = n) (hpre : s.entails a.precondition = true) (var : Nat) :
    (a.progressed effect s).value? var = (effect.value? var).or (s.value? var) := by
  rw [ha.value?_progressed heffect hs]
  cases hrequired : a.precondition.value? var with
  | none => rw [Option.none_or]
  | some required => rw [(State.entails_iff ..).mp hpre var required hrequired, Option.some_or]

theorem Grounded.over (ha : a.Grounded sizes) : a.Over sizes.length where
  precondition := ha.precondition.size_eq
  effects effect heffect := by
    obtain ⟨only, hdomains, honly, -⟩ := ha.effect
    rw [honly, List.mem_singleton] at heffect
    rw [heffect, hdomains.size_eq]

/-- In a full state that satisfies its precondition, an action leads to the state with the values of
its effect. -/
theorem Grounded.progress (ha : a.Grounded sizes) (heffect : a.effects = [effect])
    (hs : s.Full sizes) (hpre : s.entails a.precondition = true) :
    ∃ next, a.progress 0 s = some next ∧ next.Full sizes ∧
      ∀ var, next.value? var = (effect.value? var).or (s.value? var) := by
  obtain ⟨effect', hdomains, heffect', -⟩ := ha.effect
  obtain rfl : effect = effect' := by simpa using heffect.symm.trans heffect'
  have hmem : effect ∈ a.effects := by rw [heffect, List.mem_singleton]
  refine ⟨a.progressed effect s, ?_, ?_, ?_⟩
  · rw [progress_eq_some_iff]
    exact ⟨effect, by simp [heffect], State.consistent_of_entails hpre, rfl⟩
  · exact (hs.update ha.precondition).update hdomains
  · exact ha.over.value?_progressed_of_entails hmem hs.size_eq hpre

/-- In a fully defined state an action can be applied just if the state has what it requires. -/
theorem Grounded.exists_progress_iff (ha : a.Grounded sizes) (hsize : s.size = sizes.length)
    (hs : s.isPartial = false) :
    (∃ next, a.progress 0 s = some next) ↔ s.entails a.precondition = true := by
  obtain ⟨effect, -, heffect, -⟩ := ha.effect
  have hle : a.precondition.size ≤ s.size := by rw [hsize, ha.precondition.size_eq]
  simp [progress_eq_some_iff, heffect, State.consistent_iff_entails hs hle]

end Action

end StrongCyclic
