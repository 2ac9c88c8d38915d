import StrongCyclic.Planning.Action

/-!
Partial states as information, and the two directions of applying an action to them: progression
applies an effect to a state, regression finds what has to hold before it.
-/

namespace StrongCyclic

namespace State

/-- Whether every variable that `t` defines has the same value in `s`. -/
def entails (s t : State) : Bool :=
  t.pairs.all fun (var, value) => s.value? var = some value

/-- Whether no variable is defined differently in the two states. -/
def consistent (s t : State) : Bool :=
  (List.range (max s.size t.size)).all fun var =>
    match s.value? var, t.value? var with
    | some a, some b => a = b
    | _, _ => true

/-- The state `s` in which what `t` defines takes the place of what `s` has there. -/
def update (s t : State) : State :=
  ⟨s.slots.mapIdx fun var slot => (t.value? var).or slot⟩

@[simp] theorem size_update (s t : State) : (s.update t).size = s.size := by
  simp [size, update]

theorem value?_update (s t : State) (var : Nat) :
    (s.update t).value? var = if var < s.size then (t.value? var).or (s.value? var) else none := by
  by_cases h : var < s.slots.length
  · simp [value?, update, size, h]
  · simp [value?, update, size, h]

theorem value?_update_of_size_le {s t : State} (h : t.size ≤ s.size) (var : Nat) :
    (s.update t).value? var = (t.value? var).or (s.value? var) := by
  rw [value?_update]
  split
  · rfl
  · next hvar =>
    have hle : s.size ≤ var := Nat.le_of_not_lt hvar
    rw [value?_eq_none_of_size_le hle, value?_eq_none_of_size_le (Nat.le_trans h hle),
      Option.or_none]

theorem entails_iff (s t : State) :
    s.entails t = true ↔ ∀ var value, t.value? var = some value → s.value? var = some value := by
  simp only [entails, List.all_eq_true, Prod.forall, mem_pairs, decide_eq_true_eq]

theorem entails_trans {s t u : State} (hst : s.entails t = true) (htu : t.entails u = true) :
    s.entails u = true := by
  rw [entails_iff] at *
  exact fun var value h => hst var value (htu var value h)

end State

namespace Action

/-- The state after an effect. The precondition has to be consistent with the state, and its values
are taken over before the effect is applied. -/
def progress (a : Action) (index : Nat) (s : State) : Option State :=
  match a.effects[index]? with
  | none => none
  | some effect =>
    if s.consistent a.precondition then some ((s.update a.precondition).update effect) else none

/-- A slot of the regressed state: the precondition's value if it has one, and else the slot of the
state unless the effect produces just that value. -/
def regressSlot (required produced slot : Option Nat) : Option Nat :=
  match required with
  | some value => some value
  | none => if produced.isSome ∧ produced = slot then none else slot

/-- What has to hold so that an effect leads to the given state. -/
def regress (a : Action) (index : Nat) (s : State) : Option State :=
  match a.effects[index]? with
  | none => none
  | some effect =>
    if s.consistent effect then
      some ⟨s.slots.mapIdx fun var slot =>
        regressSlot (a.precondition.value? var) (effect.value? var) slot⟩
    else none

theorem progress_eq_some_iff (a : Action) (index : Nat) (s next : State) :
    a.progress index s = some next ↔
      ∃ effect, a.effects[index]? = some effect ∧ s.consistent a.precondition = true ∧
        (s.update a.precondition).update effect = next := by
  unfold progress
  cases a.effects[index]? <;> simp

end Action

end StrongCyclic
