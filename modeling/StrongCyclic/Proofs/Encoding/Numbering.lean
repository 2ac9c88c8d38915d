import Mathlib.Order.Bounds.Defs
import StrongCyclic.Proofs.Encoding.Facts

/-!
The numbers in the text of an instance, and those of its statistics. Mutex groups are numbered from
one on while they are written, and each has a source: a mutex set of the task that excludes something,
or a variable. Its members stand between its own header and the next one. The statistics count the
sources, the operators and the outcomes without the text and come to the same numbers.
-/

namespace StrongCyclic

namespace Task

/-- The largest number of outcomes is one, or the number of outcomes of an operator, and no operator
has more. -/
theorem isGreatest_maxOutcomes (t : Task) :
    IsGreatest {n | n = 1 ∨ ∃ group ∈ t.groups, group.2.length = n} t.maxOutcomes := by
  have hmax : (1 :: t.groups.map (·.2.length)).max? = some t.maxOutcomes := by
    rw [List.max?_cons', List.foldl_map]
    rfl
  obtain ⟨hmem, hle⟩ := List.max?_eq_some_iff.mp hmax
  constructor
  · simpa using hmem
  · rintro n (rfl | ⟨group, hgroup, rfl⟩)
    · exact hle 1 List.mem_cons_self
    · exact hle _ (List.mem_cons_of_mem _ (List.mem_map_of_mem hgroup))

end Task

namespace Encoding

variable {t : Task} {options : Options} {purpose : Purpose} {file : String} {ℓ : Line}

/-! ### Mutex groups -/

/-- What a mutex group is made from. -/
inductive Source
  | mutexSet (members : State)
  | domain (var : Nat)
deriving DecidableEq, Repr, Inhabited

/-- The pairs of a source. -/
def Source.pairs (t : Task) : Source → List (Nat × Nat)
  | mutexSet members => members.pairs
  | domain var => (List.range (t.domainSizes.getD var 0)).map fun value => (var, value)

/-- The mutex sets with at least two variables, and then the variables. -/
def sources (t : Task) : List Source :=
  (t.mutexes.filter (1 < ·.definedCount)).map .mutexSet ++
    (List.range t.vars.length).map .domain

theorem map_pairs_sources (t : Task) :
    (sources t).map (Source.pairs t) = mutexSets t ++ variableSets t := by
  have hvariables : (List.range t.vars.length).map (fun var => Source.pairs t (.domain var)) =
      variableSets t := by
    rw [variableSets_eq]
    refine List.ext_getElem (by simp [Task.domainSizes]) fun i hi hi' => ?_
    have hlt : i < t.domainSizes.length := by simpa using hi'
    simp [Source.pairs, List.getElem?_eq_getElem hlt]
  rw [sources, List.map_append, List.map_map, List.map_map, mutexSets_eq_map]
  exact congrArg _ hvariables

theorem length_sources (t : Task) : (sources t).length = (mutexSets t).length + t.vars.length := by
  simp [sources, mutexSets_eq_map]

theorem mutexLinesFrom_cons (start : Nat) (pairs : List (Nat × Nat))
    (sets : List (List (Nat × Nat))) :
    mutexLinesFrom start (pairs :: sets) = .mutexGroup start ::
      ((pairs.map fun pair => Line.mutex start pair.1 pair.2) ++ mutexLinesFrom (start + 1) sets) :=
  rfl

theorem factsAmong_mutexLinesFrom (start : Nat) (sets : List (List (Nat × Nat))) :
    factsAmong .mutexGroup (mutexLinesFrom start sets) =
      (List.range' start sets.length).map toString := by
  induction sets generalizing start with
  | nil => rfl
  | cons pairs sets ih =>
    have hmembers : factsAmong .mutexGroup
        (pairs.map fun pair => Line.mutex start pair.1 pair.2) = [] :=
      factsAmong_map_eq_nil (by simp [Line.opening])
    rw [mutexLinesFrom_cons, factsAmong_cons rfl, factsAmong_append, hmembers, List.nil_append, ih,
      List.length_cons, List.range'_succ, List.map_cons]

/-- The place of a line among those of the mutex groups: a header before the members of its group,
and these before the next header. -/
def Line.place? : Line → Option Nat
  | mutexGroup group => some (2 * group)
  | mutex group _ _ => some (2 * group + 1)
  | _ => none

theorem Line.part?_of_place? {place : Nat} (h : ℓ.place? = some place) :
    ℓ.part? = some .mutexes := by
  cases ℓ <;> cases h <;> rfl

theorem le_place? {start place : Nat} {sets : List (List (Nat × Nat))}
    (hℓ : ℓ ∈ mutexLinesFrom start sets) (h : ℓ.place? = some place) : 2 * start ≤ place := by
  induction sets generalizing start with
  | nil => cases hℓ
  | cons pairs sets ih =>
    rw [mutexLinesFrom_cons, List.mem_cons, List.mem_append, List.mem_map] at hℓ
    rcases hℓ with rfl | ⟨pair, -, rfl⟩ | hℓ
    · cases h
      exact Nat.le_refl _
    · cases h
      exact Nat.le_succ _
    · exact Nat.le_trans (by omega) (ih hℓ)

theorem pairwise_place? (start : Nat) (sets : List (List (Nat × Nat))) :
    ((mutexLinesFrom start sets).filterMap Line.place?).Pairwise (· ≤ ·) := by
  induction sets generalizing start with
  | nil => exact .nil
  | cons pairs sets ih =>
    have hmembers : (pairs.map fun pair => Line.mutex start pair.1 pair.2).filterMap
        Line.place? = List.replicate pairs.length (2 * start + 1) := by
      simp [List.filterMap_map, Function.comp_def, Line.place?]
    have hlater : ∀ place ∈ (mutexLinesFrom (start + 1) sets).filterMap Line.place?,
        2 * start + 1 ≤ place := by
      intro place hplace
      obtain ⟨ℓ, hℓ, h⟩ := List.mem_filterMap.mp hplace
      exact Nat.le_trans (by omega) (le_place? hℓ h)
    have hheader : (Line.mutexGroup start).place? = some (2 * start) := rfl
    rw [mutexLinesFrom_cons, List.filterMap_cons_some hheader, List.filterMap_append, hmembers,
      List.pairwise_cons, List.pairwise_append]
    refine ⟨fun place hplace => ?_, List.pairwise_replicate.mpr (.inr (Nat.le_refl _)), ih _, ?_⟩
    · rcases List.mem_append.mp hplace with h | h
      · rw [List.eq_of_mem_replicate h]
        exact Nat.le_succ _
      · exact Nat.le_trans (Nat.le_succ _) (hlater place h)
    · intro member hmember place hplace
      rw [List.eq_of_mem_replicate hmember]
      exact hlater place hplace

/-- In an instance the lines of the mutex groups stand in the order of their places. -/
theorem place?_le {i j place place' : Nat} {ℓ' : Line}
    (hi : (instanceLines t options purpose)[i]? = some ℓ)
    (hj : (instanceLines t options purpose)[j]? = some ℓ') (h : ℓ.place? = some place)
    (h' : ℓ'.place? = some place') (hlt : i < j) : place ≤ place' := by
  have hpairwise : ((instanceLines t options purpose).filterMap Line.place?).Pairwise (· ≤ ·) := by
    have hblank : ([.blank] : List Line).filterMap Line.place? = [] := rfl
    rw [filterMap_instanceLines fun ℓ _ h => Line.part?_of_place? h, partLines, mutexLines,
      List.filterMap_append, hblank, List.append_nil]
    exact pairwise_place? _ _
  obtain ⟨hilt, rfl⟩ := List.getElem?_eq_some_iff.mp hi
  obtain ⟨hjlt, rfl⟩ := List.getElem?_eq_some_iff.mp hj
  rw [List.pairwise_filterMap, List.pairwise_iff_getElem] at hpairwise
  exact hpairwise i j hilt hjlt hlt place h place' h'

/-- The members of a group stand behind its own header, and before the next one. -/
theorem header_lt_member_iff {i j group header var value : Nat}
    (hi : (instanceLines t options purpose)[i]? = some (.mutex group var value))
    (hj : (instanceLines t options purpose)[j]? = some (.mutexGroup header)) :
    j < i ↔ header ≤ group := by
  constructor
  · intro hlt
    have hle := place?_le hj hi rfl rfl hlt
    omega
  · intro hle
    rcases Nat.lt_trichotomy i j with hlt | rfl | hlt
    · have hplace := place?_le hi hj rfl rfl hlt
      omega
    · cases hi.symm.trans hj
    · exact hlt

theorem eq_mutex_of_text_eq {group var value : Nat}
    (h : ℓ.text = (Line.mutex group var value).text) : ℓ = .mutex group var value := by
  have hopening := Line.opening_eq_of_text_eq h
  cases ℓ <;> cases hopening
  exact Line.text_injective (by simp [Line.names]) (by simp [Line.names]) h

theorem eq_mutexGroup_of_text_eq {group : Nat} (h : ℓ.text = (Line.mutexGroup group).text) :
    ℓ = .mutexGroup group := by
  have hopening := Line.opening_eq_of_text_eq h
  cases ℓ <;> cases hopening
  exact Line.text_injective (by simp [Line.names]) (by simp [Line.names]) h

theorem mem_instanceLines_mutex {group var value : Nat} :
    .mutex group var value ∈ instanceLines t options purpose ↔
      ∃ index source, (sources t)[index]? = some source ∧ group = index + 1 ∧
        (var, value) ∈ source.pairs t := by
  rw [mem_instanceLines_part rfl, partLines, mem_mutexLines rfl, mem_mutexLinesFrom,
    ← map_pairs_sources]
  simp only [List.getElem?_map, Option.map_eq_some_iff]
  constructor
  · rintro ⟨index, _, ⟨source, hsource, rfl⟩, rfl, hpair⟩
    exact ⟨index, source, hsource, Nat.add_comm _ _, hpair⟩
  · rintro ⟨index, source, hsource, rfl, hpair⟩
    exact ⟨index, _, ⟨source, hsource, rfl⟩, Nat.add_comm _ _, hpair⟩

/-! ### Operators -/

variable {numVariables : Nat} {frame : Bool}

theorem opening_of_mem_outcomeLines {name : String} {index : Nat} {outcome : Action}
    (h : ℓ ∈ outcomeLines numVariables frame name index outcome) :
    ℓ.opening ∈ [.actionEffect, .add, .del, .notAffects] := by
  rcases mem_outcomeLines.mp h with rfl | ⟨s, -, h⟩
  · simp [Line.opening]
  · have houtcome := outcome?_of_mem_effectLines h
    cases ℓ <;> cases houtcome <;> simp [Line.opening]

theorem factsAmong_operatorLines (name : String) (first : Action) (outcomes : List Action) :
    factsAmong .action (operatorLines numVariables frame name first outcomes) =
      [Line.quoted name] := by
  have houtcomes : factsAmong .action
      (outcomes.mapIdx (outcomeLines numVariables frame name)).flatten = [] := by
    refine factsAmong_eq_nil fun ℓ hℓ hopening => ?_
    obtain ⟨lines, hlines, hℓ⟩ := List.mem_flatten.mp hℓ
    obtain ⟨index, _, rfl⟩ := List.mem_mapIdx.mp hlines
    have hmem := opening_of_mem_outcomeLines hℓ
    rw [hopening] at hmem
    exact absurd hmem (by decide)
  rw [operatorLines, List.cons_append, List.cons_append,
    factsAmong_cons_of_ne (by simp [Line.opening]), factsAmong_cons rfl, factsAmong_append,
    factsAmong_map_eq_nil (by simp [Line.opening]),
    factsAmong_cons_of_ne (by simp [Line.opening]), houtcomes]
  rfl

theorem factsAmong_operatorsFrom (announced : List String) {groups : List (String × List Action)}
    (h : ∀ group ∈ groups, group.2 ≠ []) :
    factsAmong .action (operatorsFrom numVariables frame announced groups) =
      groups.map fun group => Line.quoted group.1 := by
  induction groups generalizing announced with
  | nil => rfl
  | cons group groups ih =>
    obtain ⟨hgroup, hgroups⟩ := List.forall_mem_cons.mp h
    obtain ⟨name, _ | ⟨first, rest⟩⟩ := group
    · exact absurd rfl hgroup
    · have htype : factsAmong .action (if first.header.stem ∈ announced then []
          else [.actionType first.header.stem]) = [] := by
        refine factsAmong_eq_nil fun ℓ hℓ => ?_
        split at hℓ
        · cases hℓ
        · simp [List.mem_singleton.mp hℓ, Line.opening]
      rw [operatorsFrom, factsAmong_append, factsAmong_append, htype, factsAmong_operatorLines,
        ih _ hgroups]
      rfl

/-- The lines of the operators are neither about the order of the tags nor the last line. -/
theorem opening_of_mem_operatorsFrom {announced : List String}
    {groups : List (String × List Action)}
    (h : ℓ ∈ operatorsFrom numVariables frame announced groups) :
    ℓ.opening ≠ .precedence ∧ ℓ.opening ≠ .maxOutcomes := by
  induction groups generalizing announced with
  | nil => cases h
  | cons group groups ih =>
    obtain ⟨name, _ | ⟨first, rest⟩⟩ := group
    · exact ih h
    · simp only [operatorsFrom, List.mem_append] at h
      rcases h with (h | h) | h
      · split at h
        · cases h
        · simp [List.mem_singleton.mp h, Line.opening]
      · have hoperator := operator?_of_mem_operatorLines h
        cases ℓ <;> cases hoperator <;> simp [Line.opening]
      · exact ih h

/-- The arguments of a fact that orders two tags. -/
def orderedTags (first second : String) : String :=
  Line.quoted first ++ ", " ++ Line.quoted second

/-- The tags of the first outcomes. -/
def firstTags (count : Nat) : List String :=
  (List.range count).map outcomeTag

theorem factsAmong_precedenceLines (most : Nat) :
    factsAmong .precedence (precedenceLines most) =
      List.zipWith orderedTags (firstTags most) (firstTags most).tail := by
  have hwritten : factsAmong .precedence (precedenceLines most) =
      (List.range (most - 1)).map fun index =>
        orderedTags (outcomeTag index) (outcomeTag (index + 1)) := by
    refine factsAmong_map fun index => ?_
    delta Line.text
    simp [orderedTags, Line.Opening.word, String.append_assoc]
  rw [hwritten]
  refine List.ext_getElem (by simp [firstTags]) fun i hi hi' => ?_
  simp [firstTags]

theorem factsAmong_precedence_eq_nil {opening : Line.Opening} (h : opening ≠ .precedence)
    (enabled : Bool) (most : Nat) :
    factsAmong opening (if enabled then precedenceLines most else []) = [] := by
  split
  · exact factsAmong_map_eq_nil fun _ heq => h heq.symm
  · rfl

theorem factsAmong_actionLines_action (h : ∀ group ∈ t.groups, group.2 ≠ []) :
    factsAmong .action (actionLines t options) = t.groups.map fun group => Line.quoted group.1 := by
  have hlast : factsAmong .action [.maxOutcomes t.maxOutcomes, .blank] = [] :=
    factsAmong_eq_nil (by simp [Line.opening])
  rw [actionLines, factsAmong_append, factsAmong_append, factsAmong_operatorsFrom _ h,
    factsAmong_precedence_eq_nil (by decide), hlast, List.append_nil, List.append_nil]

theorem factsAmong_actionLines_maxOutcomes :
    factsAmong .maxOutcomes (actionLines t options) = [toString t.maxOutcomes] := by
  have hlast : factsAmong .maxOutcomes [.maxOutcomes t.maxOutcomes, .blank] =
      [toString t.maxOutcomes] := by
    rw [factsAmong_cons rfl, factsAmong_eq_nil (by simp [Line.opening])]
  rw [actionLines, factsAmong_append, factsAmong_append,
    factsAmong_eq_nil fun ℓ hℓ => (opening_of_mem_operatorsFrom hℓ).2,
    factsAmong_precedence_eq_nil (by decide), hlast, List.nil_append, List.nil_append]

theorem factsAmong_actionLines_precedence :
    factsAmong .precedence (actionLines t options) = if options.precedence then
      List.zipWith orderedTags (firstTags t.maxOutcomes) (firstTags t.maxOutcomes).tail else [] := by
  have hlast : factsAmong .precedence [.maxOutcomes t.maxOutcomes, .blank] = [] :=
    factsAmong_eq_nil (by simp [Line.opening])
  rw [actionLines, factsAmong_append, factsAmong_append,
    factsAmong_eq_nil fun ℓ hℓ => (opening_of_mem_operatorsFrom hℓ).1, hlast, List.nil_append,
    List.append_nil]
  split
  · exact factsAmong_precedenceLines _
  · rfl

/-- A fact about the number of outcomes ends in this number, whatever the key of the operator is. -/
theorem count_eq_of_text_eq {name name' : String} {count count' : Nat}
    (h : (Line.numEffects name count).text = (Line.numEffects name' count').text) :
    count = count' := by
  have hchars : ∀ (name : String) (count : Nat), (Line.numEffects name count).text.toList.reverse =
      ").".toList.reverse ++ ((toString count).toList.reverse ++
        ' ' :: ("numEffects(" ++ Line.quoted name ++ ",").toList.reverse) := by
    intro name count
    delta Line.text
    simp
  have hblank : ∀ count : Nat, ' ' ∉ (toString count).toList.reverse := fun count hmem =>
    absurd (Text.isDigit_of_mem_toString (List.mem_reverse.mp hmem)) (by decide)
  have hreverse := congrArg (·.toList.reverse) h
  simp only [hchars, List.append_cancel_left_eq] at hreverse
  obtain ⟨hnumeral, -⟩ := Text.append_cons_inj (hblank _) (hblank _) hreverse
  exact Text.toString_injective (String.toList_inj.mp (List.reverse_inj.mp hnumeral))

theorem mem_operatorLines_numEffects {name other : String} {first : Action}
    {outcomes : List Action} {count : Nat} :
    .numEffects name count ∈ operatorLines numVariables frame other first outcomes ↔
      name = other ∧ count = outcomes.length := by
  simp only [operatorLines, List.mem_cons, List.mem_append, List.mem_map, List.mem_flatten,
    List.mem_mapIdx, reduceCtorEq, and_false, exists_false, or_false, false_or,
    Line.numEffects.injEq]
  refine or_iff_left ?_
  rintro ⟨lines, ⟨index, _, rfl⟩, hmem⟩
  exact absurd (opening_of_mem_outcomeLines hmem) (by simp [Line.opening])

/-- The numbers in the facts about numbers of outcomes are those of the operators. -/
theorem exists_numEffects_iff (h : Sas.parse file = .ok t) (options : Options) (purpose : Purpose)
    {count : Nat} :
    (∃ name, (Line.numEffects name count).text ∈ Text.lines (instanceText t options purpose)) ↔
      ∃ group ∈ t.groups, group.2.length = count := by
  rw [lines_instanceText h]
  constructor
  · rintro ⟨name, hmem⟩
    obtain ⟨ℓ, hℓ, htext⟩ := List.mem_map.mp hmem
    have hopening := Line.opening_eq_of_text_eq htext
    cases ℓ <;> cases hopening
    rw [count_eq_of_text_eq htext] at hℓ
    obtain ⟨first, rest, hgroup, hℓ⟩ := (mem_instanceLines rfl).mp hℓ
    exact ⟨_, hgroup, (mem_operatorLines_numEffects.mp hℓ).2.symm⟩
  · rintro ⟨⟨name, outcomes⟩, hgroup, rfl⟩
    obtain ⟨first, rest, rfl⟩ :=
      List.exists_cons_of_ne_nil ((Sas.wellFormed_of_parse h).nonempty _ _ hgroup)
    refine ⟨name, List.mem_map_of_mem ((mem_instanceLines rfl).mpr ⟨first, rest, hgroup, ?_⟩)⟩
    exact mem_operatorLines_numEffects.mpr ⟨rfl, rfl⟩

theorem factsOf_action (h : Sas.parse file = .ok t) :
    factsOf "action" (instanceText t options purpose) =
      t.groups.map fun group => Line.quoted group.1 :=
  (factsOf_instanceText h .action rfl).trans
    (factsAmong_actionLines_action fun _ => (Sas.wellFormed_of_parse h).nonempty _ _)

/-! ### Text and statistics -/

/-- The numbers in the text are those of the statistics. -/
structure Numbered (t : Task) (options : Options) (text : String) : Prop where
  /-- The headers of the mutex groups count from one on. -/
  headers : factsOf "mutexGroup" text =
    (List.range' 1 (statistics t text).mutexGroups).map toString
  /-- There is one group for each source. -/
  groups : (statistics t text).mutexGroups = (sources t).length
  /-- The members of a group are the pairs of its source. -/
  members : ∀ group var value, (Line.mutex group var value).text ∈ Text.lines text ↔
    ∃ index source, (sources t)[index]? = some source ∧ group = index + 1 ∧
      (var, value) ∈ source.pairs t
  /-- The members of a group stand behind its own header, and before the next one. -/
  between : ∀ (i j group header var value : Nat),
    (Text.lines text)[i]? = some (Line.mutex group var value).text →
      (Text.lines text)[j]? = some (Line.mutexGroup header).text → (j < i ↔ header ≤ group)
  /-- There is one action for each operator. -/
  actions : factsOf "action" text = t.groups.map fun group => Line.quoted group.1
  actions_length : (factsOf "action" text).length = (statistics t text).actions
  most : factsOf "maxND" text = [toString (statistics t text).maxOutcomes]
  /-- The largest number of outcomes is the largest one in a fact about the outcomes of an operator,
  and one if there is none. -/
  greatest : IsGreatest {count | count = 1 ∨
      ∃ name, (Line.numEffects name count).text ∈ Text.lines text}
    (statistics t text).maxOutcomes
  /-- The tags up to that of the largest number of outcomes are ordered one after the other. -/
  chain : factsOf "precedence" text = if options.precedence then
    List.zipWith orderedTags (firstTags (statistics t text).maxOutcomes)
      (firstTags (statistics t text).maxOutcomes).tail else []

/-- The text of an instance and its statistics number alike, for every task that is read from a
file. -/
theorem numbered_instanceText (h : Sas.parse file = .ok t) (options : Options)
    (purpose : Purpose) : Numbered t options (instanceText t options purpose) where
  headers := by
    have hsets : (mutexSets t ++ variableSets t).length =
        (statistics t (instanceText t options purpose)).mutexGroups := by
      rw [← map_pairs_sources, List.length_map, length_sources]
      rfl
    have hblank : factsAmong .mutexGroup [.blank] = [] :=
      factsAmong_eq_nil (by simp [Line.opening])
    refine (factsOf_instanceText h .mutexGroup rfl).trans ?_
    rw [partLines, mutexLines, factsAmong_append, factsAmong_mutexLinesFrom, hsets, hblank,
      List.append_nil]
  groups := (length_sources t).symm
  members group var value := by
    rw [lines_instanceText h]
    refine Iff.trans ⟨fun hmem => ?_, List.mem_map_of_mem⟩ mem_instanceLines_mutex
    obtain ⟨ℓ, hℓ, htext⟩ := List.mem_map.mp hmem
    exact eq_mutex_of_text_eq htext ▸ hℓ
  between i j group header var value hi hj := by
    rw [lines_instanceText h, List.getElem?_map, Option.map_eq_some_iff] at hi hj
    obtain ⟨ℓ, hi, htext⟩ := hi
    obtain ⟨ℓ', hj, htext'⟩ := hj
    rw [eq_mutex_of_text_eq htext] at hi
    rw [eq_mutexGroup_of_text_eq htext'] at hj
    exact header_lt_member_iff hi hj
  actions := factsOf_action h
  actions_length := by
    rw [factsOf_action h, List.length_map]
    rfl
  most := (factsOf_instanceText h .maxOutcomes rfl).trans factsAmong_actionLines_maxOutcomes
  greatest := by
    have hgreatest := t.isGreatest_maxOutcomes
    simp only [← exists_numEffects_iff h options purpose] at hgreatest
    exact hgreatest
  chain := (factsOf_instanceText h .precedence rfl).trans factsAmong_actionLines_precedence

/-- The instance of the door that sticks has one mutex group, one operator and two tags. -/
theorem numbered_instanceText_door :
    let text := instanceText Verification.door {} .controller
    factsOf "mutexGroup" text = ["1"] ∧ factsOf "action" text = ["\"push()\""] ∧
      factsOf "maxND" text = ["2"] ∧ factsOf "precedence" text = ["\"e1\", \"e2\""] := by
  have hnumbered := numbered_instanceText parse_stickingDoorFile {} .controller
  refine ⟨hnumbered.headers.trans ?_, hnumbered.actions.trans ?_, hnumbered.most.trans ?_,
    hnumbered.chain.trans ?_⟩
  all_goals decide

end Encoding

end StrongCyclic
