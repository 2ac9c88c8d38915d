import StrongCyclic.Planning.Action

/-!
What a state keeps of the pairs that it is built from. A state has one value for each variable, so of
the pairs of a variable the last one stands and the others are lost; nothing is lost just if no
variable is listed with two values.
-/

namespace StrongCyclic

/-- The pair is listed, and its variable is not listed again behind it. -/
def LastIn (pairs : List (Nat × Nat)) (var value : Nat) : Prop :=
  ∃ before after, pairs = before ++ (var, value) :: after ∧ ∀ pair ∈ after, pair.1 ≠ var

/-- No variable is listed with two values. -/
def Unanimous (pairs : List (Nat × Nat)) : Prop :=
  ∀ pair ∈ pairs, ∀ other ∈ pairs, pair.1 = other.1 → pair.2 = other.2

/-- What holds is what is listed last for each variable, so all that is listed holds just if no
variable is listed with two values. -/
def KeepsLast (pairs : List (Nat × Nat)) (holds : Nat → Nat → Prop) : Prop :=
  (∀ var value, holds var value ↔ LastIn pairs var value) ∧
    ((∀ pair ∈ pairs, holds pair.1 pair.2) ↔ Unanimous pairs)

variable {pairs : List (Nat × Nat)} {var value : Nat}

theorem not_lastIn_nil : ¬LastIn [] var value := by
  rintro ⟨before, after, hnil, -⟩
  simp at hnil

theorem lastIn_cons {pair : Nat × Nat} :
    LastIn (pair :: pairs) var value ↔
      LastIn pairs var value ∨ pair = (var, value) ∧ ∀ other ∈ pairs, other.1 ≠ var := by
  constructor
  · rintro ⟨_ | ⟨first, before⟩, after, heq, hafter⟩
    · obtain ⟨rfl, rfl⟩ := List.cons.inj heq
      exact .inr ⟨rfl, hafter⟩
    · obtain ⟨-, rfl⟩ := List.cons.inj heq
      exact .inl ⟨before, after, rfl, hafter⟩
  · rintro (⟨before, after, rfl, hafter⟩ | ⟨rfl, hpairs⟩)
    · exact ⟨pair :: before, after, rfl, hafter⟩
    · exact ⟨[], pairs, rfl, hpairs⟩

theorem LastIn.mem (h : LastIn pairs var value) : (var, value) ∈ pairs := by
  obtain ⟨before, after, rfl, -⟩ := h
  simp

theorem exists_lastIn (h : ∃ pair ∈ pairs, pair.1 = var) : ∃ value, LastIn pairs var value := by
  induction pairs with
  | nil => simp at h
  | cons first pairs ih =>
    by_cases hlater : ∃ pair ∈ pairs, pair.1 = var
    · obtain ⟨value, hvalue⟩ := ih hlater
      exact ⟨value, lastIn_cons.mpr (.inl hvalue)⟩
    · have hnone : ∀ pair ∈ pairs, pair.1 ≠ var := fun pair hpair hvar => hlater ⟨pair, hpair, hvar⟩
      obtain ⟨pair, hpair, rfl⟩ := h
      rcases List.mem_cons.mp hpair with rfl | hpair
      · exact ⟨pair.2, lastIn_cons.mpr (.inr ⟨rfl, hnone⟩)⟩
      · exact absurd rfl (hnone pair hpair)

theorem LastIn.unique {other : Nat} (h : LastIn pairs var value) (h' : LastIn pairs var other) :
    value = other := by
  induction pairs with
  | nil => exact absurd h not_lastIn_nil
  | cons pair pairs ih =>
    rcases lastIn_cons.mp h with hlast | ⟨hpair, hnone⟩
    · rcases lastIn_cons.mp h' with hlast' | ⟨-, hnone⟩
      · exact ih hlast hlast'
      · exact absurd rfl (hnone _ hlast.mem)
    · rcases lastIn_cons.mp h' with hlast' | ⟨hpair', -⟩
      · exact absurd rfl (hnone _ hlast'.mem)
      · exact (Prod.mk.inj (hpair.symm.trans hpair')).2

theorem forall_lastIn_iff : (∀ pair ∈ pairs, LastIn pairs pair.1 pair.2) ↔ Unanimous pairs := by
  constructor
  · intro h pair hpair other hother hvar
    exact (hvar ▸ h pair hpair).unique (h other hother)
  · intro h pair hpair
    obtain ⟨value, hlast⟩ := exists_lastIn ⟨pair, hpair, rfl⟩
    rwa [h pair hpair _ hlast.mem rfl]

theorem keepsLast_iff {holds : Nat → Nat → Prop} :
    KeepsLast pairs holds ↔ ∀ var value, holds var value ↔ LastIn pairs var value := by
  refine ⟨And.left, fun h => ⟨h, ?_⟩⟩
  rw [← forall_lastIn_iff]
  exact forall₂_congr fun pair _ => h pair.1 pair.2

namespace State

theorem value?_setAll {s : State} (hvars : ∀ pair ∈ pairs, pair.1 < s.size) :
    (s.setAll pairs).value? var = some value ↔
      LastIn pairs var value ∨ (∀ pair ∈ pairs, pair.1 ≠ var) ∧ s.value? var = some value := by
  induction pairs generalizing s with
  | nil => simp [setAll, not_lastIn_nil]
  | cons pair pairs ih =>
    obtain ⟨hpair, hpairs⟩ := List.forall_mem_cons.mp hvars
    rw [setAll, List.foldl_cons]
    have hrest := ih (s := s.set pair.1 (some pair.2)) (by simpa using hpairs)
    rw [setAll] at hrest
    rw [hrest, lastIn_cons, value?_set, List.forall_mem_cons, Prod.ext_iff]
    by_cases hvar : var = pair.1
    · subst hvar
      simp [hpair, and_comm]
    · simp [hvar, Ne.symm hvar]

theorem keepsLast_ofPairs {size : Nat} (hvars : ∀ pair ∈ pairs, pair.1 < size) :
    KeepsLast pairs fun var value => (ofPairs size pairs).value? var = some value := by
  refine keepsLast_iff.mpr fun var value => ?_
  rw [ofPairs, value?_setAll (by simpa [undefined, State.size] using hvars)]
  simp

theorem ofPairs_append (size : Nat) (pairs others : List (Nat × Nat)) :
    ofPairs size (pairs ++ others) = (ofPairs size pairs).setAll others := by
  simp [ofPairs, setAll]

end State

/-- The previous value of the variable of a change. -/
def ValueChange.previous? (change : ValueChange) : Option (Nat × Nat) :=
  change.prev.map fun prev => (change.var, prev)

/-- The previous values go on behind the pairs of the precondition. -/
theorem Action.liftPrevious_eq (precondition : State) (changes : List ValueChange) :
    liftPrevious precondition changes =
      precondition.setAll (changes.filterMap ValueChange.previous?) := by
  induction changes generalizing precondition with
  | nil => rfl
  | cons change changes ih =>
    rw [liftPrevious, List.foldl_cons, ← liftPrevious, ih]
    cases hprev : change.prev with
    | none => simp [ValueChange.previous?, hprev]
    | some prev => simp [ValueChange.previous?, hprev, State.setAll]

end StrongCyclic
