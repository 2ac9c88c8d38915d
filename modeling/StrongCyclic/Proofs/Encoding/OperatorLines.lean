import StrongCyclic.Proofs.Encoding.Parts
import StrongCyclic.Proofs.Planning.WellFormed

/-!
Where the lines of an operator stand in an instance. Each line that names an operator is written
with this operator, and each line that names a tag is written with the outcome that has the tag. So
what an instance says of an outcome can be read back from the outcome alone.
-/

namespace StrongCyclic

theorem outcomeTag_injective {i j : Nat} (h : outcomeTag i = outcomeTag j) : i = j := by
  have hdigits : Nat.toDigits 10 (i + 1) = Nat.toDigits 10 (j + 1) := by
    simpa [outcomeTag] using congrArg String.toList h
  have hvalue := congrArg (Nat.ofDigitChars 10 · 0) hdigits
  simpa [Nat.ofDigitChars_ten_toDigits] using hvalue

namespace Encoding

variable {numVariables : Nat} {frame : Bool} {name : String} {ℓ : Line}

theorem mem_operatorsFrom (h : ℓ.operator? = some name) (announced : List String)
    (groups : List (String × List Action)) :
    ℓ ∈ operatorsFrom numVariables frame announced groups ↔
      ∃ first rest, (name, first :: rest) ∈ groups ∧
        ℓ ∈ operatorLines numVariables frame name first (first :: rest) := by
  induction groups generalizing announced with
  | nil => simp [operatorsFrom]
  | cons group groups ih =>
    obtain ⟨key, outcomes⟩ := group
    cases outcomes with
    | nil => simp [operatorsFrom, ih]
    | cons first rest =>
      have htype : ¬ ∃ type, ℓ = .actionType type := by
        rintro ⟨type, rfl⟩
        cases h
      have hkey : ℓ ∈ operatorLines numVariables frame key first (first :: rest) →
          key = name := fun hmem =>
        Option.some.inj ((operator?_of_mem_operatorLines hmem).symm.trans h)
      simp only [operatorsFrom, List.mem_append, ih, List.mem_cons, Prod.mk.injEq]
      grind

/-- A line about the effect of an outcome is one of the lines that are written for this outcome. -/
theorem mem_operatorLines_outcome {first outcome : Action} {outcomes : List Action} {index : Nat}
    {s : Strips} (hget : outcomes[index]? = some outcome) (hs : outcome.strips.head? = some s)
    (h : ℓ.outcome? = some (name, outcomeTag index)) :
    ℓ ∈ operatorLines numVariables frame name first outcomes ↔
      ℓ ∈ effectLines numVariables frame name (outcomeTag index) s := by
  simp only [operatorLines, List.mem_cons, List.mem_append, List.mem_map, List.mem_flatten,
    List.mem_mapIdx]
  constructor
  · rintro ((rfl | rfl | ⟨pair, -, rfl⟩) | rfl | ⟨lines, ⟨i, hi, rfl⟩, hmem⟩)
    · cases h
    · cases h
    · cases h
    · cases h
    · rcases mem_outcomeLines.mp hmem with rfl | ⟨s', hs', hmem⟩
      · cases h
      · have htag := (outcome?_of_mem_effectLines hmem).symm.trans h
        obtain rfl : i = index := outcomeTag_injective (by simpa using htag)
        rw [List.getElem?_eq_getElem hi, Option.some.injEq] at hget
        rw [hget, hs, Option.some.injEq] at hs'
        exact hs' ▸ hmem
  · intro hmem
    obtain ⟨hi, rfl⟩ := List.getElem?_eq_some_iff.mp hget
    exact .inr (.inr ⟨_, ⟨index, hi, rfl⟩, mem_outcomeLines.mpr (.inr ⟨s, hs, hmem⟩)⟩)

theorem mem_operatorLines_precondition {first : Action} {outcomes : List Action}
    {var value : Nat} :
    .precondition name var value ∈ operatorLines numVariables frame name first outcomes ↔
      first.precondition.value? var = some value := by
  rw [← State.mem_pairs]
  simp only [operatorLines, List.mem_cons, List.mem_append, List.mem_map, List.mem_flatten,
    List.mem_mapIdx]
  constructor
  · rintro ((h | h | ⟨pair, hpair, h⟩) | h | ⟨lines, ⟨i, hi, rfl⟩, hmem⟩)
    · cases h
    · cases h
    · cases h
      exact hpair
    · cases h
    · rcases mem_outcomeLines.mp hmem with h | ⟨s, -, hmem⟩
      · cases h
      · cases outcome?_of_mem_effectLines hmem
  · exact fun h => .inl (.inr (.inr ⟨_, h, rfl⟩))

/-- A line about an operator is one of the lines that are written with the operator. -/
theorem mem_instanceLines {t : Task} {options : Options} {purpose : Purpose}
    (h : ℓ.operator? = some name) :
    ℓ ∈ instanceLines t options purpose ↔ ∃ first rest, (name, first :: rest) ∈ t.groups ∧
      ℓ ∈ operatorLines t.vars.length options.notAffects name first (first :: rest) := by
  have hprecedence : ℓ ∉ if options.precedence then precedenceLines t.maxOutcomes else [] := by
    intro hmem
    split at hmem
    · obtain ⟨index, -, rfl⟩ := List.mem_map.mp hmem
      cases h
    · cases hmem
  have hlast : ℓ ∉ [Line.maxOutcomes t.maxOutcomes, .blank] := by
    simp only [List.mem_cons, List.not_mem_nil, or_false]
    rintro (rfl | rfl) <;> cases h
  rw [mem_instanceLines_part (Line.part?_of_operator? h)]
  simp only [partLines, actionLines, List.mem_append, hprecedence, hlast, mem_operatorsFrom h,
    or_false]

section WellFormed

variable {t : Task} {options : Options} {purpose : Purpose} {outcomes : List Action}

theorem mem_instanceLines_group (ht : t.WellFormed) (hgroup : (name, outcomes) ∈ t.groups)
    (h : ℓ.operator? = some name) :
    ℓ ∈ instanceLines t options purpose ↔ ∃ first, outcomes.head? = some first ∧
      ℓ ∈ operatorLines t.vars.length options.notAffects name first outcomes := by
  rw [mem_instanceLines h]
  constructor
  · rintro ⟨first, rest, hmem, hℓ⟩
    obtain rfl := ht.outcomes_unique hgroup hmem
    exact ⟨first, rfl, hℓ⟩
  · rintro ⟨first, hhead, hℓ⟩
    obtain ⟨rest, rfl⟩ := List.head?_eq_some_iff.mp hhead
    exact ⟨first, rest, hgroup, hℓ⟩

/-- The precondition that is written for an operator is that of its first outcome. -/
theorem mem_instanceLines_precondition (ht : t.WellFormed)
    (hgroup : (name, outcomes) ∈ t.groups) {var value : Nat} :
    .precondition name var value ∈ instanceLines t options purpose ↔
      ∃ first, outcomes.head? = some first ∧ first.precondition.value? var = some value := by
  rw [mem_instanceLines_group ht hgroup rfl]
  simp only [mem_operatorLines_precondition]

/-- What is written about the effect of an outcome comes from its own add and delete list. -/
theorem mem_instanceLines_outcome (ht : t.WellFormed) (hgroup : (name, outcomes) ∈ t.groups)
    {index : Nat} {outcome : Action} {s : Strips} (hget : outcomes[index]? = some outcome)
    (hs : outcome.strips.head? = some s) (h : ℓ.outcome? = some (name, outcomeTag index)) :
    ℓ ∈ instanceLines t options purpose ↔
      ℓ ∈ effectLines t.vars.length options.notAffects name (outcomeTag index) s := by
  rw [mem_instanceLines_group ht hgroup (Line.operator?_of_outcome? h)]
  simp only [mem_operatorLines_outcome hget hs h]
  obtain ⟨first, rest, rfl⟩ := List.exists_cons_of_ne_nil (ht.nonempty _ _ hgroup)
  simp

end WellFormed

end Encoding

end StrongCyclic
