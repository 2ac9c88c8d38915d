import StrongCyclic.Encoding.Line
import StrongCyclic.Proofs.Text.Numeral

/-!
The text of a line tells the line, if the strings in it have no quote of their own. The word in front
of the first bracket tells the kind of the line, but for the two kinds of `holds` and the two of
`actionType`; then the arguments follow one after the other, a number as far as its digits go and a
string up to the next quote.
-/

namespace StrongCyclic.Encoding.Line

/-! ### Words -/

/-- What a line starts with. -/
inductive Opening
  | blank
  | variableRange
  | variableValue
  | mutexGroup
  | mutex
  | holds
  | fails
  | goal
  | actionType
  | action
  | precondition
  | numEffects
  | actionEffect
  | add
  | del
  | notAffects
  | precedence
  | maxOutcomes
deriving DecidableEq

namespace Opening

/-- All openings. -/
def all : List Opening :=
  [blank, variableRange, variableValue, mutexGroup, mutex, holds, fails, goal, actionType, action,
    precondition, numEffects, actionEffect, add, del, notAffects, precedence, maxOutcomes]

/-- The word in front of the first bracket. -/
def word : Opening → String
  | blank => ""
  | variableRange => "variable"
  | variableValue => "variableValue"
  | mutexGroup => "mutexGroup"
  | mutex => "mutex"
  | holds => "holds"
  | fails => "-holds"
  | goal => "goal"
  | actionType => "actionType"
  | action => "action"
  | precondition => "precondition"
  | numEffects => "numEffects"
  | actionEffect => "actionEffect"
  | add => "add"
  | del => "del"
  | notAffects => "notaffects"
  | precedence => "precedence"
  | maxOutcomes => "maxND"

theorem find?_word (opening : Opening) :
    all.find? (fun other => other.word = opening.word) = some opening := by
  cases opening <;> decide

theorem word_injective {opening opening' : Opening} (h : opening.word = opening'.word) :
    opening = opening' := by
  have hfound := find?_word opening
  rw [h, find?_word] at hfound
  exact (Option.some.inj hfound).symm

end Opening

/-- What the line starts with. -/
def opening : Line → Opening
  | blank => .blank
  | variableRange _ => .variableRange
  | variableValues _ _ => .variableValue
  | mutexGroup _ => .mutexGroup
  | mutex _ _ _ => .mutex
  | holdsInitially _ _ | holdsAtGoal _ _ => .holds
  | failsInitially _ _ => .fails
  | goal _ _ => .goal
  | actionType _ | typedAction _ _ => .actionType
  | action _ => .action
  | precondition _ _ _ => .precondition
  | numEffects _ _ => .numEffects
  | actionEffect _ _ => .actionEffect
  | add _ _ _ _ => .add
  | del _ _ _ _ => .del
  | notAffects _ _ _ => .notAffects
  | precedence _ _ => .precedence
  | maxOutcomes _ => .maxOutcomes

theorem takeWhile_text (ℓ : Line) :
    ℓ.text.toList.takeWhile (· ≠ '(') = ℓ.opening.word.toList := by
  cases ℓ <;> (delta text; dsimp only; simp [opening, Opening.word])

theorem opening_eq_of_text_eq {ℓ ℓ' : Line} (h : ℓ.text = ℓ'.text) : ℓ.opening = ℓ'.opening := by
  refine Opening.word_injective ?_
  rw [← String.toList_inj, ← takeWhile_text, ← takeWhile_text, h]

/-! ### Arguments -/

section Arguments

variable {s s' : String} {cs cs' : List Char} {var var' value value' : Nat}

theorem quoted_append_inj (hs : '"' ∉ s.toList) (hs' : '"' ∉ s'.toList)
    (h : (quoted s).toList ++ cs = (quoted s').toList ++ cs') : s = s' ∧ cs = cs' := by
  have hquoted : ∀ t (ds : List Char), (quoted t).toList ++ ds = '"' :: (t.toList ++ '"' :: ds) := by
    intro t ds
    simp [quoted]
  rw [hquoted, hquoted] at h
  obtain ⟨hchars, hrest⟩ := Text.append_cons_inj hs hs' (List.cons.inj h).2
  exact ⟨String.toList_inj.mp hchars, hrest⟩

theorem pairEnd_append_inj
    (h : (pairEnd var value).toList ++ cs = (pairEnd var' value').toList ++ cs') :
    var = var' ∧ value = value' ∧ cs = cs' := by
  simp only [pairEnd, String.toList_append, List.append_assoc, List.append_cancel_left_eq] at h
  obtain ⟨hvar, h⟩ := Text.numeral_append_inj (by simp) (by simp) h
  obtain ⟨hvalue, h⟩ := Text.numeral_append_inj (by simp) (by simp) (List.append_cancel_left h)
  exact ⟨hvar, hvalue, List.append_cancel_left h⟩

end Arguments

/-- The strings in the line. -/
def names : Line → List String
  | actionType type => [type]
  | typedAction type name => [type, name]
  | action name | precondition name _ _ | numEffects name _ => [name]
  | actionEffect name tag | add name tag _ _ | del name tag _ _ | notAffects name tag _ =>
    [name, tag]
  | precedence first second => [first, second]
  | _ => []

/-- Lines with the same text are the same. -/
theorem text_injective {ℓ ℓ' : Line} (hℓ : ∀ s ∈ ℓ.names, '"' ∉ s.toList)
    (hℓ' : ∀ s ∈ ℓ'.names, '"' ∉ s.toList) (h : ℓ.text = ℓ'.text) : ℓ = ℓ' := by
  have hopening := opening_eq_of_text_eq h
  rw [← String.toList_inj] at h
  revert h
  cases ℓ <;> cases ℓ' <;> cases hopening
  -- what is left are lines of the same kind, and the two pairs of kinds that open alike
  all_goals
    simp only [names, List.mem_cons, List.not_mem_nil, or_false, forall_eq_or_imp, forall_eq,
      false_implies, implies_true] at hℓ hℓ'
    delta text
    dsimp only
    simp only [String.toList_append, List.append_assoc, List.append_cancel_left_eq]
    intro h
  case blank.blank => trivial
  case variableRange.variableRange =>
    rw [Text.toString_int_injective (String.toList_inj.mp (List.append_cancel_right h))]
  case variableValues.variableValues =>
    obtain ⟨rfl, hrest⟩ := Text.numeral_append_inj (by simp) (by simp) h
    have hlast := List.append_cancel_right (List.append_cancel_left hrest)
    rw [Text.toString_int_injective (String.toList_inj.mp hlast)]
  case mutexGroup.mutexGroup | maxOutcomes.maxOutcomes =>
    obtain ⟨rfl, -⟩ := Text.numeral_append_inj (by simp) (by simp) h
    rfl
  case mutex.mutex =>
    obtain ⟨rfl, hrest⟩ := Text.numeral_append_inj (by simp [pairEnd]) (by simp [pairEnd]) h
    obtain ⟨rfl, rfl, -⟩ := pairEnd_append_inj hrest
    rfl
  case holdsInitially.holdsInitially | failsInitially.failsInitially | holdsAtGoal.holdsAtGoal =>
    obtain ⟨rfl, rfl, -⟩ := pairEnd_append_inj h
    rfl
  case holdsInitially.holdsAtGoal | holdsAtGoal.holdsInitially =>
    obtain ⟨-, -, hrest⟩ := pairEnd_append_inj h
    exact absurd hrest (by decide)
  case goal.goal =>
    obtain ⟨rfl, hrest⟩ := Text.numeral_append_inj (by simp) (by simp) h
    obtain ⟨rfl, -⟩ := Text.numeral_append_inj (by simp) (by simp) (List.append_cancel_left hrest)
    rfl
  case actionType.actionType | action.action =>
    obtain ⟨rfl, -⟩ := quoted_append_inj hℓ hℓ' h
    rfl
  case actionType.typedAction =>
    obtain ⟨-, hrest⟩ := quoted_append_inj hℓ hℓ'.1 h
    exact absurd hrest (by simp)
  case typedAction.actionType =>
    obtain ⟨-, hrest⟩ := quoted_append_inj hℓ.1 hℓ' h
    exact absurd hrest (by simp)
  case precondition.precondition =>
    obtain ⟨rfl, hrest⟩ := quoted_append_inj hℓ hℓ' h
    obtain ⟨rfl, rfl, -⟩ := pairEnd_append_inj hrest
    rfl
  case numEffects.numEffects =>
    obtain ⟨rfl, hrest⟩ := quoted_append_inj hℓ hℓ' h
    obtain ⟨rfl, -⟩ := Text.numeral_append_inj (by simp) (by simp) (List.append_cancel_left hrest)
    rfl
  case typedAction.typedAction | actionEffect.actionEffect | precedence.precedence =>
    obtain ⟨rfl, hrest⟩ := quoted_append_inj hℓ.1 hℓ'.1 h
    obtain ⟨rfl, -⟩ := quoted_append_inj hℓ.2 hℓ'.2 (List.append_cancel_left hrest)
    rfl
  case add.add | del.del =>
    obtain ⟨rfl, hrest⟩ := quoted_append_inj hℓ.1 hℓ'.1 h
    obtain ⟨rfl, hpair⟩ := quoted_append_inj hℓ.2 hℓ'.2 (List.append_cancel_left hrest)
    obtain ⟨rfl, rfl, -⟩ := pairEnd_append_inj hpair
    rfl
  case notAffects.notAffects =>
    obtain ⟨rfl, hrest⟩ := quoted_append_inj hℓ.1 hℓ'.1 h
    obtain ⟨rfl, hvar⟩ := quoted_append_inj hℓ.2 hℓ'.2 (List.append_cancel_left hrest)
    obtain ⟨rfl, -⟩ := Text.numeral_append_inj (by simp) (by simp) (List.append_cancel_left hvar)
    rfl

/-- A line stands on one line, if the strings in it do. -/
theorem not_mem_feed_text {ℓ : Line} (h : ∀ s ∈ ℓ.names, '\n' ∉ s.toList) :
    '\n' ∉ ℓ.text.toList := by
  have hnumeral : ∀ n : Nat, '\n' ∉ (toString n).toList := fun n => (Text.plain_toString n).2
  have hinteger : ∀ i : Int, '\n' ∉ (toString i).toList := fun i hmem =>
    absurd (Text.mem_toString_int hmem) (by decide)
  cases ℓ
  case blank => decide
  all_goals
    simp only [names, List.mem_cons, List.not_mem_nil, or_false, forall_eq_or_imp, forall_eq,
      false_implies, implies_true] at h
    delta text
    dsimp only
    simp only [quoted, pairEnd, String.toList_append, List.mem_append, hnumeral, hinteger, h]
    decide

end StrongCyclic.Encoding.Line
