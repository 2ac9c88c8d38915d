import StrongCyclic.Planning.Variable

/-!
Partial states: an assignment with one slot per variable, in which a slot may be undefined. Reading
outside the slots gives undefined and writing there changes nothing. The view is `value?`.
-/

namespace StrongCyclic

/-- A slot from the integer convention in which -1 stands for undefined. -/
def slotOfInteger? (raw : Int) : Option (Option Nat) :=
  if raw = -1 then some none
  else if 0 ≤ raw then some (some raw.toNat)
  else none

/-- The text of a slot in the same convention. -/
def slotText : Option Nat → String
  | some value => toString value
  | none => "-1"

/-- A partial assignment: one slot per variable, `none` where the variable is undefined. -/
structure State where
  slots : List (Option Nat)
deriving DecidableEq, Repr, Inhabited

namespace State

/-- The state that defines no variable. -/
def undefined (size : Nat) : State :=
  ⟨List.replicate size none⟩

/-- The state that defines every variable by the value in its place. -/
def ofValues (values : List Nat) : State :=
  ⟨values.map some⟩

/-- The number of slots. -/
def size (s : State) : Nat :=
  s.slots.length

/-- The value of a variable, if it is defined. -/
def value? (s : State) (var : Nat) : Option Nat :=
  s.slots.getD var none

/-- Replaces one slot; a variable without a slot is ignored. -/
def set (s : State) (var : Nat) (slot : Option Nat) : State :=
  ⟨s.slots.set var slot⟩

/-- Defines the variables of the pairs, the later pair winning. -/
def setAll (s : State) (pairs : List (Nat × Nat)) : State :=
  pairs.foldl (fun s pair => s.set pair.1 (some pair.2)) s

/-- The state that defines just the variables of the pairs. -/
def ofPairs (size : Nat) (pairs : List (Nat × Nat)) : State :=
  (undefined size).setAll pairs

/-- The defined variables with their values, counted from `var` on. -/
def pairsFrom (var : Nat) : List (Option Nat) → List (Nat × Nat)
  | [] => []
  | some value :: slots => (var, value) :: pairsFrom (var + 1) slots
  | none :: slots => pairsFrom (var + 1) slots

/-- The defined variables with their values, in the order of the variables. -/
def pairs (s : State) : List (Nat × Nat) :=
  pairsFrom 0 s.slots

/-- The number of defined variables. -/
def definedCount (s : State) : Nat :=
  s.pairs.length

/-- Whether some variable is undefined. -/
def isPartial (s : State) : Bool :=
  s.slots.any Option.isNone

/-- Whether a variable is defined. -/
def isDefined (s : State) (var : Nat) : Bool :=
  (s.value? var).isSome

/-- The defined variables as a list of equations in brackets. -/
def text (s : State) : String :=
  ",".intercalate (s.pairs.map fun (var, value) =>
    "(var" ++ toString var ++ "=" ++ toString value ++ ")")

/-- The labels of the defined variables; a variable without a declaration is shown as an
equation. -/
def describe (s : State) (vars : List Variable) : String :=
  ",".intercalate (s.pairs.map fun (var, value) =>
    match vars[var]? with
    | some v => v.label value
    | none => "var" ++ toString var ++ "=" ++ toString value)

@[simp] theorem value?_undefined (size var : Nat) : (undefined size).value? var = none := by
  simp [value?, undefined, List.getElem?_replicate]
  split <;> simp

@[simp] theorem size_set (s : State) (var : Nat) (slot : Option Nat) :
    (s.set var slot).size = s.size := by
  simp [size, set]

theorem value?_set (s : State) (var : Nat) (slot : Option Nat) (v : Nat) :
    (s.set var slot).value? v = if v = var ∧ var < s.size then slot else s.value? v := by
  by_cases hv : v = var
  · subst hv
    by_cases hs : v < s.size
    · simp [value?, set, size] at *
      simp [hs]
    · have hs' : s.slots.length ≤ v := Nat.le_of_not_lt hs
      simp [value?, set, hs, hs']
  · simp [value?, set, hv, Ne.symm hv]

theorem value?_eq_none_of_size_le {s : State} {var : Nat} (h : s.size ≤ var) :
    s.value? var = none := by
  rw [size] at h
  simp [value?, h]

theorem lt_size_of_value? {s : State} {var value : Nat} (h : s.value? var = some value) :
    var < s.size := by
  refine Nat.lt_of_not_le fun hle => ?_
  rw [value?_eq_none_of_size_le hle] at h
  cases h

theorem eq_of_value? {s s' : State} (hsize : s.size = s'.size)
    (h : ∀ var, s.value? var = s'.value? var) : s = s' := by
  obtain ⟨slots⟩ := s
  obtain ⟨slots'⟩ := s'
  have hslots : slots = slots' := by
    refine List.ext_getElem hsize fun i hi hi' => ?_
    simpa [value?, hi, hi'] using h i
  rw [hslots]

theorem mem_pairsFrom (slots : List (Option Nat)) (start var value : Nat) :
    (var, value) ∈ pairsFrom start slots ↔ start ≤ var ∧ slots[var - start]? = some (some value) := by
  induction slots generalizing start with
  | nil => simp [pairsFrom]
  | cons slot slots ih =>
    rcases Nat.lt_trichotomy start var with h | rfl | h
    · obtain ⟨k, rfl⟩ : ∃ k, var = start + 1 + k := ⟨var - (start + 1), by omega⟩
      have hhere : start + 1 + k - start = k + 1 := by omega
      have hthere : start + 1 + k - (start + 1) = k := by omega
      have hne : start + 1 + k ≠ start := by omega
      cases slot <;> simp [pairsFrom, ih, hhere, hthere, hne] <;> omega
    · have hlt : ¬start + 1 ≤ start := by omega
      cases slot <;> simp [pairsFrom, ih, hlt, eq_comm]
    · have hle : ¬start ≤ var := by omega
      have hlt : ¬start + 1 ≤ var := by omega
      cases slot <;> simp [pairsFrom, ih, hle, hlt]
      omega

theorem mem_pairs (s : State) (var value : Nat) :
    (var, value) ∈ s.pairs ↔ s.value? var = some value := by
  rw [pairs, mem_pairsFrom, value?, List.getD_eq_getElem?_getD]
  cases s.slots[var]? <;> simp

end State

end StrongCyclic
