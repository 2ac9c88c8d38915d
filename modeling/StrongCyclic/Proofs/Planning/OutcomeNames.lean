import Mathlib.Data.List.Infix
import StrongCyclic.Proofs.Planning.Grouping
import StrongCyclic.Proofs.Text.Numeral
import StrongCyclic.Proofs.Text.Search

/-!
Names of outcomes. The name of an outcome is that of its operator with an outcome mark and a number
behind it, and it is cut at the first mark in it. Two marks overlap at most in one character, so the cut is
where the mark was put if the name of the operator neither has a mark in it nor ends in all of a mark but its
last character. Then the outcomes stand under the key of the operator, by their numbers; if the name
ends within a mark, what is in front of this mark is taken for the operator, and the number is lost.
-/

namespace StrongCyclic

open Text (IsWord wordLimit)

namespace Header

variable {stem : String} {arguments : List String}

/-- The name of an outcome. -/
def outcomeName (stem : String) (number : Nat) : String :=
  stem ++ "_DETDUP_" ++ toString number

/-- The header line of a name with arguments. -/
def line (name : String) (arguments : List String) : String :=
  " ".intercalate (name :: arguments)

/-- The name has an outcome mark in it, in letters of either case. -/
def CarriesMark (name : String) : Prop :=
  outcomeMark <:+: name.toList.map Char.toUpper

/-- The name ends in an outcome mark, in letters of either case, that lacks its last character. -/
def EndsWithinMark (name : String) : Prop :=
  outcomeMark.dropLast <:+ name.toList.map Char.toUpper

instance (name : String) : Decidable (CarriesMark name) :=
  inferInstanceAs (Decidable (_ <:+: _))

instance (name : String) : Decidable (EndsWithinMark name) :=
  inferInstanceAs (Decidable (_ <:+ _))

/-! ### Cutting names -/

/-- A mark that begins in front of another one lies there, but for its last character. -/
theorem outcomeMark_prefix_append {rest after : List Char} (hne : rest ≠ [])
    (h : outcomeMark <+: rest ++ (outcomeMark ++ after)) :
    outcomeMark <+: rest ∨ outcomeMark.dropLast = rest := by
  have hoverlaps : ∀ ending ∈ outcomeMark.tails, ending.head? = some '_' →
      ending = outcomeMark ∨ ending = ['_'] := by
    decide
  obtain ⟨behind, hbehind⟩ := h
  rcases List.append_eq_append_iff.mp hbehind with ⟨more, hrest, -⟩ | ⟨ending, hmark, hending⟩
  · exact .inl ⟨more, hrest.symm⟩
  cases ending with
  | nil => exact .inl (by simp [hmark])
  | cons c ending =>
    obtain ⟨rfl, -⟩ : '_' = c ∧ _ := List.cons.inj hending
    have hsuffix : '_' :: ending ∈ outcomeMark.tails :=
      (List.mem_tails _ _).mpr ⟨rest, hmark.symm⟩
    rcases hoverlaps _ hsuffix rfl with heq | heq
    · rw [heq] at hmark
      exact absurd (List.append_left_eq_self.mp hmark.symm) hne
    · rw [heq] at hmark
      exact .inr (by rw [hmark, List.dropLast_concat])

/-- A name is cut at a mark if none begins before it. -/
theorem cutOutcome?_append {front mark : List Char} (after : List Char)
    (hmark : mark.map Char.toUpper = outcomeMark) (hfront : ¬ outcomeMark <:+: front.map Char.toUpper)
    (hend : ¬ outcomeMark.dropLast <:+ front.map Char.toUpper) :
    cutOutcome? (front ++ (mark ++ after)) = some (front, after) := by
  have hcut : Text.cutChars? outcomeMark ((front ++ (mark ++ after)).map Char.toUpper) =
      some (front.map Char.toUpper, after.map Char.toUpper) := by
    rw [List.map_append, List.map_append, hmark]
    refine Text.cutChars?_append_of_first fun rest hrest hne hprefix => ?_
    rcases outcomeMark_prefix_append hne hprefix with hlies | rfl
    · exact hfront (hlies.isInfix.trans hrest.isInfix)
    · exact hend hrest
  have hlength : mark.length = outcomeMark.length := by
    rw [← hmark, List.length_map]
  rw [cutOutcome?, hcut, Option.map_some]
  simp [← hlength, List.drop_append]

theorem cutOutcome?_eq_none {name : String} (h : ¬ CarriesMark name) :
    cutOutcome? name.toList = none := by
  rw [cutOutcome?, Option.map_eq_none_iff, Option.eq_none_iff_forall_not_mem]
  intro cut hcut
  exact h (Text.isSome_cutChars?_iff.mp (Option.isSome_of_mem hcut))

theorem toList_outcomeName (stem : String) (number : Nat) :
    (outcomeName stem number).toList =
      stem.toList ++ (outcomeMark ++ (toString number).toList) := by
  simp [outcomeName, outcomeMark]

/-! ### Reading headers -/

theorem parse?_line {name : String} (hname : IsWord name)
    (harguments : ∀ argument ∈ arguments, IsWord argument) :
    parse? (line name arguments) = some (ofWords name arguments) := by
  rw [parse?, line, Text.words_intercalate (List.forall_mem_cons.mpr ⟨hname, harguments⟩)]

theorem isWord_outcomeName (hstem : IsWord stem) (number : Nat) :
    IsWord (outcomeName stem number) := by
  have hmark : outcomeMark.all fun c => !Text.isBlank c := by decide
  refine ⟨by simp [outcomeName], fun c hc => ?_⟩
  rw [toList_outcomeName, List.mem_append, List.mem_append] at hc
  rcases hc with hc | hc | hc
  · exact hstem.2 c hc
  · simpa using List.all_eq_true.mp hmark c hc
  · exact Text.isBlank_of_isDigit (Text.isDigit_of_mem_toString hc)

theorem ofWords_of_not_carriesMark {name : String} (h : ¬ CarriesMark name)
    (arguments : List String) : ofWords name arguments = ⟨name, name, none, arguments⟩ := by
  rw [ofWords, cutOutcome?_eq_none h]

theorem ofWords_outcomeName (hmark : ¬ CarriesMark stem) (hend : ¬ EndsWithinMark stem)
    (number : Nat) (arguments : List String) :
    ofWords (outcomeName stem number) arguments =
      ⟨outcomeName stem number, stem, Text.below? wordLimit (some number), arguments⟩ := by
  have hcut : cutOutcome? (outcomeName stem number).toList =
      some (stem.toList, (toString number).toList) := by
    rw [toList_outcomeName]
    exact cutOutcome?_append _ (by decide) hmark hend
  have hnumber : Text.naturalOf? (toString number).toList = Text.below? wordLimit (some number) :=
    Text.natural?_toString_eq number
  rw [ofWords, hcut]
  dsimp only
  rw [hnumber, String.ofList_toList]

/-- If the name of the operator ends within a mark, the outcomes are cut there. -/
theorem ofWords_outcomeName_append {front broken : String} (hmark : ¬ CarriesMark (front ++ broken))
    (hbroken : broken.toList.map Char.toUpper = outcomeMark.dropLast) (number : Nat)
    (arguments : List String) :
    ofWords (outcomeName (front ++ broken) number) arguments =
      ⟨outcomeName (front ++ broken) number, front, none, arguments⟩ := by
  have hupper : (front ++ broken).toList.map Char.toUpper =
      front.toList.map Char.toUpper ++ outcomeMark.dropLast := by
    rw [String.toList_append, List.map_append, hbroken]
  rw [CarriesMark, hupper] at hmark
  -- the mark that begins in the name of the operator is completed by that of the outcome
  have hcut : cutOutcome? (outcomeName (front ++ broken) number).toList =
      some (front.toList, outcomeMark.tail ++ (toString number).toList) := by
    have hsplit : (outcomeName (front ++ broken) number).toList = front.toList ++
        ((broken.toList ++ ['_']) ++ (outcomeMark.tail ++ (toString number).toList)) := by
      simp [toList_outcomeName, outcomeMark]
    rw [hsplit]
    refine cutOutcome?_append _ (by simp [hbroken, outcomeMark]) (fun h => hmark ?_)
      fun h => hmark ?_
    · exact h.trans (List.prefix_append _ _).isInfix
    · obtain ⟨before, hbefore⟩ := h
      refine ⟨before, ['D', 'E', 'T', 'D', 'U', 'P'], ?_⟩
      rw [← hbefore]
      simp [outcomeMark]
  have hnumber : Text.naturalOf? (outcomeMark.tail ++ (toString number).toList) = none := by
    simp [Text.naturalOf?, Text.digitsValue?, Text.below?, outcomeMark, Char.isDigit]
  rw [ofWords, hcut]
  dsimp only
  rw [hnumber, String.ofList_toList]

theorem EndsWithinMark.exists_append (h : EndsWithinMark stem) :
    ∃ front broken : String, stem = front ++ broken ∧
      broken.toList.map Char.toUpper = outcomeMark.dropLast := by
  obtain ⟨before, hbefore⟩ := h
  obtain ⟨front, broken, hchars, -, hbroken⟩ := List.map_eq_append_iff.mp hbefore.symm
  refine ⟨String.ofList front, String.ofList broken, ?_, by rw [String.toList_ofList, hbroken]⟩
  rw [← String.toList_inj, String.toList_append, String.toList_ofList, String.toList_ofList, hchars]

theorem parse?_outcomeName_append {front broken : String} (hstem : IsWord (front ++ broken))
    (harguments : ∀ argument ∈ arguments, IsWord argument) (hmark : ¬ CarriesMark (front ++ broken))
    (hbroken : broken.toList.map Char.toUpper = outcomeMark.dropLast) (number : Nat) :
    parse? (line (outcomeName (front ++ broken) number) arguments) =
      some ⟨outcomeName (front ++ broken) number, front, none, arguments⟩ := by
  rw [parse?_line (isWord_outcomeName hstem number) harguments,
    ofWords_outcomeName_append hmark hbroken]

/-- The outcomes of the operator are read back. -/
def DecodesOutcomes (stem : String) (arguments : List String) : Prop :=
  ∀ number < wordLimit, parse? (line (outcomeName stem number) arguments) =
    some ⟨outcomeName stem number, stem, some number, arguments⟩

theorem decodesOutcomes (hstem : IsWord stem) (harguments : ∀ argument ∈ arguments, IsWord argument)
    (hmark : ¬ CarriesMark stem) (hend : ¬ EndsWithinMark stem) :
    DecodesOutcomes stem arguments := by
  intro number hnumber
  have hbelow : Text.below? wordLimit (some number) = some number :=
    Text.below?_eq_some_iff.mpr ⟨rfl, hnumber⟩
  rw [parse?_line (isWord_outcomeName hstem number) harguments, ofWords_outcomeName hmark hend, hbelow]

end Header

/-! ### Groups of outcomes -/

namespace Task

open Header

variable {stem : String} {arguments : List String} {number : Nat} {a : Action}
  {actions outcomes : List Action} {numbers : List Nat}

/-- The header of the action has been read off the line of the outcome with the number. -/
def IsOutcome (stem : String) (arguments : List String) (number : Nat) (a : Action) : Prop :=
  parse? (line (outcomeName stem number) arguments) = some a.header

instance (stem : String) (arguments : List String) (number : Nat) (a : Action) :
    Decidable (IsOutcome stem arguments number a) :=
  inferInstanceAs (Decidable (_ = _))

/-- The outcomes of an operator have the key of the operator. Under this key none of them is missing;
they stand by their numbers, and those of one number as in the list of actions. So, if there are no other
actions with the key and the numbers are different, the list may come in any order. -/
structure ListsOutcomes (stem : String) (arguments : List String) (actions : List Action)
    (t : Task) : Prop where
  keyed : ∀ number < wordLimit, ∀ a, IsOutcome stem arguments number a →
    a.groupKey = actionKey stem arguments
  kept : ∀ number < wordLimit,
    ((t.outcomes? (actionKey stem arguments)).getD []).filter (IsOutcome stem arguments number) =
      actions.filter (IsOutcome stem arguments number)
  sorted : ((t.outcomes? (actionKey stem arguments)).getD []).Pairwise fun a b =>
    ∀ i < wordLimit, ∀ j < wordLimit,
      IsOutcome stem arguments i a → IsOutcome stem arguments j b → i ≤ j
  numbered : ∀ numbers outcomes, numbers.Pairwise (· < ·) → (∀ number ∈ numbers, number < wordLimit) →
    List.Forall₂ (IsOutcome stem arguments) numbers outcomes → outcomes ≠ [] →
    (actions.filter (·.groupKey = actionKey stem arguments)).Perm outcomes →
    t.outcomes? (actionKey stem arguments) = some outcomes

theorem getD_lookup_groupByOperator (actions : List Action) (key : String) :
    ((groupByOperator actions).lookup key).getD [] = outcomesAmong actions key := by
  rw [lookup_groupByOperator]
  split
  · rfl
  · next hkey =>
    rw [outcomesAmong, filter_key_eq_nil hkey]
    rfl

section Decoded

variable (hdecodes : DecodesOutcomes stem arguments)

include hdecodes

theorem IsOutcome.header_eq (hnumber : number < wordLimit)
    (h : IsOutcome stem arguments number a) :
    a.header = ⟨outcomeName stem number, stem, some number, arguments⟩ :=
  (Option.some.inj ((hdecodes number hnumber).symm.trans h)).symm

theorem IsOutcome.groupKey_eq (hnumber : number < wordLimit)
    (h : IsOutcome stem arguments number a) : a.groupKey = actionKey stem arguments := by
  rw [Action.groupKey, h.header_eq hdecodes hnumber]

theorem IsOutcome.outcomeRank_eq (hnumber : number < wordLimit)
    (h : IsOutcome stem arguments number a) : a.outcomeRank = number := by
  rw [Action.outcomeRank, h.header_eq hdecodes hnumber]
  rfl

theorem filter_outcomesAmong (actions : List Action) (hnumber : number < wordLimit) :
    (outcomesAmong actions (actionKey stem arguments)).filter (IsOutcome stem arguments number) =
      actions.filter (IsOutcome stem arguments number) := by
  have hranked (as : List Action) : (as.filter (·.outcomeRank = number)).filter
      (IsOutcome stem arguments number) = as.filter (IsOutcome stem arguments number) := by
    rw [List.filter_filter]
    refine List.filter_congr fun a _ => ?_
    by_cases h : IsOutcome stem arguments number a
    · simp [h, h.outcomeRank_eq hdecodes hnumber]
    · simp [h]
  rw [← hranked, outcomesAmong, Sorted.filter_sortBy, hranked, List.filter_filter]
  refine List.filter_congr fun a _ => ?_
  by_cases h : IsOutcome stem arguments number a
  · simp [h, h.groupKey_eq hdecodes hnumber]
  · simp [h]

theorem map_outcomeRank_eq (hnumbers : ∀ number ∈ numbers, number < wordLimit)
    (h : List.Forall₂ (IsOutcome stem arguments) numbers outcomes) :
    outcomes.map Action.outcomeRank = numbers := by
  induction h with
  | nil => rfl
  | cons hfirst _ ih =>
    obtain ⟨hnumber, hnumbers⟩ := List.forall_mem_cons.mp hnumbers
    rw [List.map_cons, hfirst.outcomeRank_eq hdecodes hnumber, ih hnumbers]

theorem outcomesAmong_eq (hincreasing : numbers.Pairwise (· < ·))
    (hnumbers : ∀ number ∈ numbers, number < wordLimit)
    (houtcomes : List.Forall₂ (IsOutcome stem arguments) numbers outcomes)
    (hperm : (actions.filter (·.groupKey = actionKey stem arguments)).Perm outcomes) :
    outcomesAmong actions (actionKey stem arguments) = outcomes := by
  have hranks := map_outcomeRank_eq hdecodes hnumbers houtcomes
  have hsorted : outcomes.Pairwise (·.outcomeRank ≤ ·.outcomeRank) := by
    rw [← hranks] at hincreasing
    exact (List.pairwise_map.mp hincreasing).imp Nat.le_of_lt
  have hnodup : (outcomes.map Action.outcomeRank).Nodup := by
    rw [hranks]
    exact hincreasing.imp Nat.ne_of_lt
  rw [outcomesAmong, Sorted.sortBy_eq_of_perm hperm ((hperm.map _).nodup_iff.mpr hnodup),
    Sorted.sortBy_eq_self hsorted]

theorem listsOutcomes (vars : List Variable) (initial goal : State) (mutexes : List State)
    (actions : List Action) :
    ListsOutcomes stem arguments actions (ofActions vars initial goal mutexes actions) where
  keyed number hnumber a h := h.groupKey_eq hdecodes hnumber
  kept number hnumber := by
    rw [outcomes?, ofActions, getD_lookup_groupByOperator]
    exact filter_outcomesAmong hdecodes actions hnumber
  sorted := by
    rw [outcomes?, ofActions, getD_lookup_groupByOperator]
    refine (Sorted.pairwise_sortBy _).imp fun hle i hi j hj ha hb => ?_
    rwa [ha.outcomeRank_eq hdecodes hi, hb.outcomeRank_eq hdecodes hj] at hle
  numbered numbers outcomes hincreasing hnumbers houtcomes hne hperm := by
    obtain ⟨a, ha⟩ := List.exists_mem_of_ne_nil _ hne
    obtain ⟨ha, hkey⟩ := List.mem_filter.mp (hperm.mem_iff.mpr ha)
    have hmem : actionKey stem arguments ∈ actions.map Action.groupKey :=
      List.mem_map.mpr ⟨a, ha, of_decide_eq_true hkey⟩
    rw [outcomes?, ofActions, lookup_groupByOperator, if_pos hmem,
      outcomesAmong_eq hdecodes hincreasing hnumbers houtcomes hperm]

end Decoded

/-! ### Operators and their outcomes -/

/-- The line of an operator whose name carries no mark is read back, and the line of an outcome just if
the name of the operator does not end within a mark either; the outcomes are then listed under the key of the
operator, by their numbers. If the name ends within a mark, its outcomes are read as ones of what is
in front of the mark, without numbers. -/
theorem outcomes_decode_iff (hstem : IsWord stem)
    (harguments : ∀ argument ∈ arguments, IsWord argument) (hmark : ¬ CarriesMark stem) :
    parse? (line stem arguments) = some ⟨stem, stem, none, arguments⟩ ∧
    (∀ number < wordLimit, parse? (line (outcomeName stem number) arguments) =
      some ⟨outcomeName stem number, stem, some number, arguments⟩ ↔ ¬ EndsWithinMark stem) ∧
    (∀ front broken, stem = front ++ broken →
      broken.toList.map Char.toUpper = outcomeMark.dropLast → ∀ number,
        parse? (line (outcomeName stem number) arguments) =
          some ⟨outcomeName stem number, front, none, arguments⟩) ∧
    (¬ EndsWithinMark stem → ∀ vars initial goal mutexes actions,
      ListsOutcomes stem arguments actions (ofActions vars initial goal mutexes actions)) := by
  refine ⟨?_, fun number hnumber => ⟨fun hread hend => ?_, fun hend => ?_⟩, ?_, fun hend => ?_⟩
  · rw [parse?_line hstem harguments, ofWords_of_not_carriesMark hmark]
  · obtain ⟨front, broken, rfl, hbroken⟩ := hend.exists_append
    rw [parse?_outcomeName_append hstem harguments hmark hbroken] at hread
    simp at hread
  · exact decodesOutcomes hstem harguments hmark hend number hnumber
  · rintro front broken rfl hbroken number
    exact parse?_outcomeName_append hstem harguments hmark hbroken number
  · exact listsOutcomes (decodesOutcomes hstem harguments hmark hend)

/-- An action with the header on a line. -/
def withHeader (text : String) : Action :=
  .ofChanges ((parse? text).getD default) (.undefined 0) [] 1 []

/-- A move with two outcomes, next to an operator whose name only starts like an outcome mark. -/
theorem outcomes_decode_move :
    parse? "move_det l1 l2" = some ⟨"move_det", "move_det", none, ["l1", "l2"]⟩ ∧
    parse? "move_det_DETDUP_1 l1 l2" =
      some ⟨"move_det_DETDUP_1", "move_det", some 1, ["l1", "l2"]⟩ ∧
    (ofActions [] (.undefined 0) (.undefined 0) [] [withHeader "move_det_DETDUP_1 l1 l2",
      withHeader "move l1 l2", withHeader "move_det_DETDUP_0 l1 l2"]).outcomes? "move_det(l1,l2)" =
        some [withHeader "move_det_DETDUP_0 l1 l2", withHeader "move_det_DETDUP_1 l1 l2"] := by
  have hstem : IsWord "move_det" := by decide
  have harguments : ∀ argument ∈ ["l1", "l2"], IsWord argument := by decide
  obtain ⟨hplain, houtcomes, -, hlists⟩ := outcomes_decode_iff hstem harguments (by decide)
  have hend : ¬ EndsWithinMark "move_det" := by decide
  have hlisted := hlists hend [] (.undefined 0) (.undefined 0) [] [withHeader "move_det_DETDUP_1 l1 l2",
      withHeader "move l1 l2", withHeader "move_det_DETDUP_0 l1 l2"]
  refine ⟨hplain, (houtcomes 1 (by decide)).mpr hend, ?_⟩
  refine hlisted.numbered [0, 1] _ (by decide) (by decide) ?_ (by simp) ?_
  · exact .cons (by decide +kernel) (.cons (by decide +kernel) .nil)
  · decide +kernel

/-- The outcomes of an operator that is called `reset_detdup` are not read back. -/
theorem not_forall_outcomes_decode :
    ¬ ∀ (stem : String) (arguments : List String) (number : Nat), IsWord stem →
      (∀ argument ∈ arguments, IsWord argument) → ¬ CarriesMark stem → number < wordLimit →
      parse? (line (outcomeName stem number) arguments) =
        some ⟨outcomeName stem number, stem, some number, arguments⟩ ∧
      parse? (line stem arguments) = some ⟨stem, stem, none, arguments⟩ := by
  intro hall
  obtain ⟨hread, -⟩ := hall "reset_detdup" ["a"] 1 (by decide) (by decide) (by decide) (by decide)
  exact absurd hread (by decide +kernel)

end Task

end StrongCyclic
