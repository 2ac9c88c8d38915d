import StrongCyclic.Encoding.Instance

/-!
The parts of an instance. Each line but the blank ones shows by its kind which part it belongs to, so
a line of the instance stands in its own part. The members of a mutex group are the pairs of one set,
and the goal facts are the pairs of the goal.
-/

namespace StrongCyclic.Encoding

/-! ### Lines of operators -/

variable {numVariables : Nat} {frame : Bool} {name : String} {ℓ : Line}

namespace Line

/-- The operator that a line is about. -/
def operator? : Line → Option String
  | typedAction _ name | action name | precondition name _ _ | numEffects name _
  | actionEffect name _ | add name _ _ _ | del name _ _ _ | notAffects name _ _ => some name
  | _ => none

/-- The operator and the tag of the outcome whose effect a line describes. -/
def outcome? : Line → Option (String × String)
  | add name tag _ _ | del name tag _ _ | notAffects name tag _ => some (name, tag)
  | _ => none

theorem operator?_of_outcome? {tag : String} (h : ℓ.outcome? = some (name, tag)) :
    ℓ.operator? = some name := by
  cases ℓ <;> simp_all [outcome?, operator?]

end Line

theorem outcome?_of_mem_effectLines {tag : String} {s : Strips}
    (h : ℓ ∈ effectLines numVariables frame name tag s) : ℓ.outcome? = some (name, tag) := by
  simp only [effectLines, List.mem_append, List.mem_map] at h
  rcases h with (⟨pair, -, rfl⟩ | ⟨pair, -, rfl⟩) | h
  · rfl
  · rfl
  · split at h
    · obtain ⟨var, -, rfl⟩ := List.mem_map.mp h
      rfl
    · cases h

theorem mem_outcomeLines {index : Nat} {outcome : Action} :
    ℓ ∈ outcomeLines numVariables frame name index outcome ↔
      ℓ = .actionEffect name (outcomeTag index) ∨ ∃ s, outcome.strips.head? = some s ∧
        ℓ ∈ effectLines numVariables frame name (outcomeTag index) s := by
  rw [outcomeLines, List.mem_cons]
  cases outcome.strips.head? <;> simp

theorem operator?_of_mem_operatorLines {first : Action} {outcomes : List Action}
    (h : ℓ ∈ operatorLines numVariables frame name first outcomes) :
    ℓ.operator? = some name := by
  simp only [operatorLines, List.mem_cons, List.mem_append, List.mem_map, List.mem_flatten,
    List.mem_mapIdx] at h
  rcases h with (rfl | rfl | ⟨pair, -, rfl⟩) | rfl | ⟨lines, ⟨index, _, rfl⟩, h⟩
  · rfl
  · rfl
  · rfl
  · rfl
  · rcases mem_outcomeLines.mp h with rfl | ⟨s, -, h⟩
    · rfl
    · exact Line.operator?_of_outcome? (outcome?_of_mem_effectLines h)

/-! ### Parts -/

/-- The parts of an instance. -/
inductive Part
  | declarations
  | mutexes
  | initial
  | goal
  | actions
deriving DecidableEq, Repr, Inhabited

/-- The part that a line belongs to; blank lines belong to none. -/
def Line.part? : Line → Option Part
  | blank => none
  | variableRange _ | variableValues _ _ => some .declarations
  | mutexGroup _ | mutex _ _ _ => some .mutexes
  | holdsInitially _ _ | failsInitially _ _ => some .initial
  | holdsAtGoal _ _ | goal _ _ => some .goal
  | actionType _ | typedAction _ _ | action _ | precondition _ _ _ | numEffects _ _
  | actionEffect _ _ | add _ _ _ _ | del _ _ _ _ | notAffects _ _ _ | precedence _ _
  | maxOutcomes _ => some .actions

variable {t : Task} {options : Options} {purpose : Purpose} {part : Part}

theorem Line.part?_of_operator? (h : ℓ.operator? = some name) :
    ℓ.part? = some .actions := by
  cases ℓ <;> first | rfl | cases h

theorem part?_of_mem_variableLines {vars : List Variable} (h : ℓ ∈ variableLines vars)
    (hpart : ℓ.part? = some part) : part = .declarations := by
  simp only [variableLines, List.mem_append, List.mem_cons, List.mem_mapIdx, List.not_mem_nil,
    or_false] at h
  rcases h with (rfl | ⟨index, _, rfl⟩) | rfl <;> cases hpart <;> rfl

theorem part?_of_mem_mutexLinesFrom {group : Nat} {sets : List (List (Nat × Nat))}
    (h : ℓ ∈ mutexLinesFrom group sets) : ℓ.part? = some .mutexes := by
  induction sets generalizing group with
  | nil => cases h
  | cons pairs sets ih =>
    simp only [mutexLinesFrom, List.mem_cons, List.mem_append, List.mem_map] at h
    rcases h with (rfl | ⟨pair, -, rfl⟩) | h
    · rfl
    · rfl
    · exact ih h

theorem mem_mutexLines (hpart : ℓ.part? = some part) :
    ℓ ∈ mutexLines t ↔ ℓ ∈ mutexLinesFrom 1 (mutexSets t ++ variableSets t) := by
  rw [mutexLines, List.mem_append, List.mem_singleton, or_iff_left]
  rintro rfl
  cases hpart

theorem part?_of_mem_initialLines {values : InitialValues} (h : ℓ ∈ initialLines t values)
    (hpart : ℓ.part? = some part) : part = .initial := by
  have hpositive : ℓ ∈ positiveLines t → part = .initial := by
    simp only [positiveLines, List.mem_append, List.mem_map, List.mem_singleton]
    rintro (⟨pair, -, rfl⟩ | rfl)
    · cases hpart
      rfl
    · cases hpart
  have hnegative : ℓ ∈ negativeLines t → part = .initial := by
    simp only [negativeLines, List.mem_append, List.mem_flatMap, List.mem_map, List.mem_singleton]
    rintro (⟨pair, -, value, -, rfl⟩ | rfl)
    · cases hpart
      rfl
    · cases hpart
  cases values with
  | positive => exact hpositive h
  | negative => exact hnegative h
  | both => exact (List.mem_append.mp h).elim hpositive hnegative

theorem part?_of_mem_goalLines (h : ℓ ∈ goalLines t purpose) (hpart : ℓ.part? = some part) :
    part = .goal := by
  cases purpose with
  | controller =>
    simp only [goalLines, List.mem_append, List.mem_flatMap, List.mem_cons, List.not_mem_nil,
      or_false] at h
    rcases h with ⟨pair, -, rfl | rfl⟩ | rfl <;> cases hpart <;> rfl
  | weakPlan =>
    simp only [goalLines, List.mem_append, List.mem_map, List.mem_singleton] at h
    rcases h with ⟨pair, -, rfl⟩ | rfl
    · cases hpart
      rfl
    · cases hpart

theorem part?_of_mem_operatorsFrom {announced : List String} {groups : List (String × List Action)}
    (h : ℓ ∈ operatorsFrom numVariables frame announced groups) : ℓ.part? = some .actions := by
  induction groups generalizing announced with
  | nil => cases h
  | cons group groups ih =>
    obtain ⟨key, outcomes⟩ := group
    cases outcomes with
    | nil => exact ih h
    | cons first rest =>
      simp only [operatorsFrom, List.mem_append] at h
      rcases h with (h | h) | h
      · split at h
        · cases h
        · rw [List.mem_singleton.mp h]
          rfl
      · exact Line.part?_of_operator? (operator?_of_mem_operatorLines h)
      · exact ih h

theorem part?_of_mem_actionLines (h : ℓ ∈ actionLines t options) (hpart : ℓ.part? = some part) :
    part = .actions := by
  simp only [actionLines, List.mem_append, List.mem_cons, List.not_mem_nil, or_false] at h
  rcases h with (h | h) | rfl | rfl
  · exact Option.some.inj (hpart.symm.trans (part?_of_mem_operatorsFrom h))
  · split at h
    · obtain ⟨index, -, rfl⟩ := List.mem_map.mp h
      cases hpart
      rfl
    · cases h
  · cases hpart
    rfl
  · cases hpart

/-- The lines of a part of an instance. -/
def partLines (t : Task) (options : Options) (purpose : Purpose) : Part → List Line
  | .declarations => variableLines t.vars
  | .mutexes => mutexLines t
  | .initial => initialLines t options.initialValues
  | .goal => goalLines t purpose
  | .actions => actionLines t options

theorem part?_of_mem_partLines {other : Part} (h : ℓ ∈ partLines t options purpose other)
    (hpart : ℓ.part? = some part) : part = other := by
  cases other with
  | declarations => exact part?_of_mem_variableLines h hpart
  | mutexes =>
    exact Option.some.inj (hpart.symm.trans
      (part?_of_mem_mutexLinesFrom ((mem_mutexLines hpart).mp h)))
  | initial => exact part?_of_mem_initialLines h hpart
  | goal => exact part?_of_mem_goalLines h hpart
  | actions => exact part?_of_mem_actionLines h hpart

/-- A line of an instance stands in its own part. -/
theorem mem_instanceLines_part (hpart : ℓ.part? = some part) :
    ℓ ∈ instanceLines t options purpose ↔ ℓ ∈ partLines t options purpose part := by
  have hmem : ℓ ∈ instanceLines t options purpose ↔
      ∃ other, ℓ ∈ partLines t options purpose other := by
    simp only [instanceLines, List.mem_append]
    constructor
    · rintro ((((h | h) | h) | h) | h)
      · exact ⟨.declarations, h⟩
      · exact ⟨.mutexes, h⟩
      · exact ⟨.initial, h⟩
      · exact ⟨.goal, h⟩
      · exact ⟨.actions, h⟩
    · rintro ⟨_ | _ | _ | _ | _, h⟩ <;> simp only [partLines] at h <;> simp [h]
  rw [hmem]
  refine ⟨?_, fun h => ⟨part, h⟩⟩
  rintro ⟨other, h⟩
  exact part?_of_mem_partLines h hpart ▸ h

/-! ### Mutex groups and the goal -/

theorem mem_mutexLinesFrom {start group var value : Nat} {sets : List (List (Nat × Nat))} :
    .mutex group var value ∈ mutexLinesFrom start sets ↔
      ∃ index pairs, sets[index]? = some pairs ∧ group = start + index ∧ (var, value) ∈ pairs := by
  induction sets generalizing start with
  | nil => simp [mutexLinesFrom]
  | cons first sets ih =>
    have hfirst : .mutex group var value ∈
        first.map (fun pair => Line.mutex start pair.1 pair.2) ↔
          group = start ∧ (var, value) ∈ first := by
      rw [List.mem_map]
      constructor
      · rintro ⟨pair, hpair, heq⟩
        cases heq
        exact ⟨rfl, hpair⟩
      · rintro ⟨rfl, hpair⟩
        exact ⟨_, hpair, rfl⟩
    have hlines : mutexLinesFrom start (first :: sets) = .mutexGroup start ::
        (first.map (fun pair => Line.mutex start pair.1 pair.2) ++ mutexLinesFrom (start + 1) sets) :=
      rfl
    simp only [hlines, List.mem_append, List.mem_cons, reduceCtorEq, false_or, hfirst, ih]
    constructor
    · rintro (⟨rfl, hpair⟩ | ⟨index, pairs, hget, rfl, hpair⟩)
      · exact ⟨0, first, rfl, rfl, hpair⟩
      · exact ⟨index + 1, pairs, hget, by omega, hpair⟩
    · rintro ⟨_ | index, pairs, hget, rfl, hpair⟩
      · cases hget
        exact .inl ⟨rfl, hpair⟩
      · exact .inr ⟨index, pairs, hget, by omega, hpair⟩

/-- Each set of at least two pairs is a mutex group of its own, whose members are the pairs. -/
theorem exists_mutexGroup {pairs : List (Nat × Nat)} (h : pairs ∈ mutexSets t) :
    ∃ group, ∀ options purpose var value,
      .mutex group var value ∈ instanceLines t options purpose ↔ (var, value) ∈ pairs := by
  obtain ⟨index, hget⟩ := List.mem_iff_getElem?.mp h
  have hall : (mutexSets t ++ variableSets t)[index]? = some pairs := by
    rw [List.getElem?_append_left (List.getElem?_eq_some_iff.mp hget).1, hget]
  refine ⟨1 + index, fun options purpose var value => ?_⟩
  rw [mem_instanceLines_part rfl, partLines, mem_mutexLines rfl, mem_mutexLinesFrom]
  constructor
  · rintro ⟨other, others, hother, heq, hmem⟩
    obtain rfl : index = other := Nat.add_left_cancel heq
    rwa [Option.some.inj (hall.symm.trans hother)]
  · exact fun hmem => ⟨index, pairs, hall, rfl, hmem⟩

theorem mem_instanceLines_goal {var value : Nat} :
    .goal var value ∈ instanceLines t options purpose ↔ t.goal.value? var = some value := by
  rw [mem_instanceLines_part rfl, partLines, ← State.mem_pairs]
  cases purpose with
  | controller =>
    simp only [goalLines, List.mem_append, List.mem_flatMap, List.mem_cons, List.not_mem_nil,
      or_false, reduceCtorEq, false_or, Prod.exists]
    constructor
    · rintro ⟨var', value', hpair, heq⟩
      cases heq
      exact hpair
    · exact fun hpair => ⟨var, value, hpair, rfl⟩
  | weakPlan =>
    simp only [goalLines, List.mem_append, List.mem_map, List.mem_singleton, reduceCtorEq, or_false,
      Prod.exists]
    constructor
    · rintro ⟨var', value', hpair, heq⟩
      cases heq
      exact hpair
    · exact fun hpair => ⟨var, value, hpair, rfl⟩

end StrongCyclic.Encoding
