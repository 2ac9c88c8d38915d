import Mathlib.Order.Bounds.Basic
import StrongCyclic.Proofs.Planning.Progression

/-!
Partial states as information. Among the states over the same variables, those that a state entails
lie below it. To update is to override: what the second state defines wins. Two states are consistent
just if some state knows what both know, and then it does not matter which of them overrides the
other: the update is their join.

All of it is decided slot by slot, where an update is `Option.or`.
-/

namespace StrongCyclic

namespace State

variable {s t u : State}

/-! ### Entailment -/

theorem entails_refl (s : State) : s.entails s = true :=
  (entails_iff s s).mpr fun _ _ h => h

theorem entails_antisymm (hsize : s.size = t.size) (hst : s.entails t = true)
    (hts : t.entails s = true) : s = t := by
  rw [entails_iff] at hst hts
  exact eq_of_value? hsize fun var => Option.ext fun value => ⟨hts var value, hst var value⟩

/-! ### Updates -/

theorem update_self (s : State) : s.update s = s := by
  refine eq_of_value? (size_update s s) fun var => ?_
  rw [value?_update_of_size_le (Nat.le_refl s.size), Option.or_self]

theorem update_undefined (s : State) (n : Nat) : s.update (undefined n) = s := by
  refine eq_of_value? (size_update ..) fun var => ?_
  rw [value?_update, value?_undefined, Option.none_or]
  split
  · rfl
  · next hvar => exact (value?_eq_none_of_size_le (Nat.le_of_not_lt hvar)).symm

theorem undefined_update (s : State) : (undefined s.size).update s = s := by
  have hsize : (undefined s.size).size = s.size := by simp [undefined, size]
  refine eq_of_value? ((size_update ..).trans hsize) fun var => ?_
  rw [value?_update_of_size_le hsize.ge, value?_undefined, Option.or_none]

theorem update_assoc (htu : u.size ≤ t.size) (s : State) :
    (s.update t).update u = s.update (t.update u) := by
  refine eq_of_value? (by simp only [size_update]) fun var => ?_
  rw [value?_update, size_update, value?_update, value?_update s, value?_update_of_size_le htu]
  split
  · exact Option.or_assoc.symm
  · rfl

/-- The second state of an update keeps what it knows. -/
theorem update_entails_right (h : t.size ≤ s.size) : (s.update t).entails t = true := by
  refine (entails_iff ..).mpr fun var value hvalue => ?_
  rw [value?_update_of_size_le h, hvalue, Option.some_or]

/-- What two states of the same size know is all that an update of one by the other knows. -/
theorem entails_update (hs : u.entails s = true) (ht : u.entails t = true) :
    u.entails (s.update t) = true := by
  rw [entails_iff] at *
  intro var value hvalue
  rw [value?_update] at hvalue
  split at hvalue
  · rcases Option.or_eq_some_iff.mp hvalue with h | ⟨-, h⟩
    · exact ht var value h
    · exact hs var value h
  · cases hvalue

/-! ### Consistency -/

theorem consistent_comm (s t : State) : s.consistent t = t.consistent s := by
  rw [Bool.eq_iff_iff, consistent_iff, consistent_iff]
  exact ⟨fun h var a b ha hb => (h var b a hb ha).symm,
    fun h var a b ha hb => (h var b a hb ha).symm⟩

/-- Where a state knows both, they do not contradict each other. -/
theorem consistent_of_entails_both (hs : u.entails s = true) (ht : u.entails t = true) :
    s.consistent t = true := by
  rw [entails_iff] at hs ht
  rw [consistent_iff]
  intro var a b ha hb
  exact Option.some.inj ((hs var a ha).symm.trans (ht var b hb))

/-- The first state of an update keeps what it knows just if the second one does not contradict
it. -/
theorem update_entails_left_iff (h : t.size ≤ s.size) :
    (s.update t).entails s = true ↔ s.consistent t = true := by
  refine ⟨fun hs => consistent_of_entails_both hs (update_entails_right h), fun hst => ?_⟩
  rw [consistent_iff] at hst
  refine (entails_iff ..).mpr fun var value hvalue => ?_
  rw [value?_update_of_size_le h]
  cases hother : t.value? var with
  | none => rw [hvalue, Option.none_or]
  | some other => rw [hst var value other hvalue hother, Option.some_or]

/-- Consistent states may override each other in either order, and only those. -/
theorem consistent_iff_update_comm (hsize : s.size = t.size) :
    s.consistent t = true ↔ s.update t = t.update s := by
  constructor
  · intro hst
    have hts : t.consistent s = true := consistent_comm s t ▸ hst
    refine entails_antisymm (by simp only [size_update, hsize]) ?_ ?_
    · exact entails_update (update_entails_right hsize.ge)
        ((update_entails_left_iff hsize.ge).mpr hst)
    · exact entails_update (update_entails_right hsize.le)
        ((update_entails_left_iff hsize.le).mpr hts)
  · intro heq
    rw [← update_entails_left_iff hsize.ge, heq]
    exact update_entails_right hsize.le

end State

/-! ### The states over the same variables -/

/-- The states over `n` variables. -/
abbrev StateOver (n : Nat) : Type :=
  { s : State // s.size = n }

namespace StateOver

variable {n : Nat}

/-- A state lies below those that entail it. -/
instance : PartialOrder (StateOver n) where
  le p s := s.1.entails p.1 = true
  le_refl s := s.1.entails_refl
  le_trans _ _ _ hpq hqs := State.entails_trans hqs hpq
  le_antisymm p s hps hsp :=
    Subtype.ext (State.entails_antisymm (p.2.trans s.2.symm) hsp hps)

/-- The first state overridden by the second one. -/
def override (s t : StateOver n) : StateOver n :=
  ⟨s.1.update t.1, (State.size_update s.1 t.1).trans s.2⟩

theorem size_le (s t : StateOver n) : s.1.size ≤ t.1.size :=
  (s.2.trans t.2.symm).le

/-- The override of consistent states is their join. -/
theorem isLUB_override {s t : StateOver n} (h : s.1.consistent t.1 = true) :
    IsLUB {s, t} (s.override t) := by
  constructor
  · rintro p (rfl | rfl)
    · exact (State.update_entails_left_iff (size_le t p)).mpr h
    · exact State.update_entails_right (size_le p s)
  · intro u hu
    exact State.entails_update (hu (.inl rfl)) (hu (.inr rfl))

theorem consistent_iff_bddAbove (s t : StateOver n) :
    s.1.consistent t.1 = true ↔ BddAbove {s, t} := by
  refine ⟨fun h => (isLUB_override h).bddAbove, ?_⟩
  rintro ⟨u, hu⟩
  exact State.consistent_of_entails_both (hu (.inl rfl)) (hu (.inr rfl))

/-- What entailment, consistency and update are to each other among the states over `n`
variables. -/
structure InformationOrder (n : Nat) : Prop where
  entails_refl : ∀ s : StateOver n, s.1.entails s.1 = true
  entails_trans : ∀ s t u : StateOver n, s.1.entails t.1 = true → t.1.entails u.1 = true →
    s.1.entails u.1 = true
  entails_antisymm : ∀ s t : StateOver n, s.1.entails t.1 = true → t.1.entails s.1 = true → s = t
  update_assoc : ∀ s t u : StateOver n,
    (s.1.update t.1).update u.1 = s.1.update (t.1.update u.1)
  update_self : ∀ s : StateOver n, s.1.update s.1 = s.1
  update_undefined : ∀ s : StateOver n, s.1.update (.undefined n) = s.1
  undefined_update : ∀ s : StateOver n, (State.undefined n).update s.1 = s.1
  update_entails : ∀ s t : StateOver n, (s.1.update t.1).entails t.1 = true
  /-- Some state knows what both know. -/
  consistent_iff_entailed : ∀ s t : StateOver n, s.1.consistent t.1 = true ↔
    ∃ u : StateOver n, u.1.entails s.1 = true ∧ u.1.entails t.1 = true
  consistent_iff_comm : ∀ s t : StateOver n, s.1.consistent t.1 = true ↔
    s.1.update t.1 = t.1.update s.1
  /-- The update is the least state that knows what both know. -/
  update_least : ∀ s t : StateOver n, s.1.consistent t.1 = true →
    (s.1.update t.1).entails s.1 = true ∧ (s.1.update t.1).entails t.1 = true ∧
      ∀ u : StateOver n, u.1.entails s.1 = true → u.1.entails t.1 = true →
        u.1.entails (s.1.update t.1) = true

theorem informationOrder_statesOver (n : Nat) : InformationOrder n where
  entails_refl s := s.1.entails_refl
  entails_trans _ _ _ := State.entails_trans
  entails_antisymm _ _ hst hts := le_antisymm hts hst
  update_assoc s t u := State.update_assoc (size_le u t) s.1
  update_self s := s.1.update_self
  update_undefined s := s.1.update_undefined n
  undefined_update s := by
    have hunit := s.1.undefined_update
    rwa [s.2] at hunit
  update_entails s t := State.update_entails_right (size_le t s)
  consistent_iff_entailed s t := by
    rw [consistent_iff_bddAbove, bddAbove_def]
    simp only [Set.mem_insert_iff, Set.mem_singleton_iff, forall_eq_or_imp, forall_eq]
    rfl
  consistent_iff_comm s t := State.consistent_iff_update_comm (s.2.trans t.2.symm)
  update_least s t h := by
    obtain ⟨hupper, hleast⟩ := isLUB_override h
    refine ⟨hupper (.inl rfl), hupper (.inr rfl), fun u hs ht => hleast ?_⟩
    rintro p (rfl | rfl)
    · exact hs
    · exact ht

end StateOver

end StrongCyclic
