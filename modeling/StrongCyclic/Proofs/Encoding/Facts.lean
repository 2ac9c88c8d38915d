import StrongCyclic.Proofs.Encoding.Determined

/-!
The facts in the text of an instance. The text has one line for each line of the instance, and a
fact is a line that gives its arguments between brackets, behind the name of a predicate. So the facts
of a predicate can be read off the text, and they stand in the part of the instance that has its lines.
-/

namespace StrongCyclic.Encoding

variable {t : Task} {options : Options} {purpose : Purpose} {file : String} {ℓ : Line}

/-! ### The lines of the text -/

theorem Line.getLast?_text (h : ℓ ≠ .blank) : ℓ.text.toList.getLast? = some '.' := by
  cases ℓ
  case blank => exact absurd rfl h
  all_goals
    delta text
    dsimp only
    rw [String.toList_append, List.getLast?_append_of_ne_nil _ (by decide)]
    decide

theorem Line.dropReturn_text (ℓ : Line) :
    String.ofList (Text.dropReturn ℓ.text.toList) = ℓ.text := by
  have hreturn : ℓ.text.toList.getLast? ≠ some '\r' := by
    by_cases h : ℓ = .blank
    · rw [h]
      decide
    · rw [getLast?_text h]
      decide
  rw [Text.dropReturn, if_neg hreturn, String.ofList_toList]

theorem lines_instanceText (h : Sas.parse file = .ok t) :
    Text.lines (instanceText t options purpose) =
      (instanceLines t options purpose).map Line.text := by
  have hfeed : ∀ line ∈ (instanceLines t options purpose).map Line.text, '\n' ∉ line.toList :=
    not_mem_feed_of_parse h
  have hlines := Text.lines_unlines_append_dropReturn hfeed ""
  rw [String.append_empty, List.map_map] at hlines
  have hsame : (fun t => String.ofList (Text.dropReturn t.toList)) ∘ Line.text = Line.text :=
    funext Line.dropReturn_text
  rw [instanceText, hlines, hsame]
  exact List.append_nil _

/-! ### Facts of a predicate -/

/-- What stands between the brackets, if the line is a fact of the predicate. -/
def argumentsOf? (predicate line : String) : Option String :=
  (Text.afterPrefix? (predicate ++ "(") line).bind (Text.beforeSuffix? ").")

/-- The arguments of the facts of a predicate in a text, in the order of the lines. -/
def factsOf (predicate text : String) : List String :=
  (Text.lines text).filterMap (argumentsOf? predicate)

theorem argumentsOf?_append (predicate arguments : String) :
    argumentsOf? predicate (predicate ++ "(" ++ arguments ++ ").") = some arguments := by
  rw [argumentsOf?, String.append_assoc, Text.afterPrefix?_append, Option.bind_some,
    Text.beforeSuffix?_append]

/-- The arguments of the facts of a predicate among the lines of an instance. -/
def factsAmong (opening : Line.Opening) (lines : List Line) : List String :=
  lines.filterMap fun ℓ => argumentsOf? opening.word ℓ.text

theorem Line.Opening.not_mem_bracket_word (opening : Opening) : '(' ∉ opening.word.toList := by
  cases opening <;> decide

/-- A fact of a predicate opens with its name. -/
theorem opening_of_argumentsOf? {opening : Line.Opening} {arguments : String}
    (h : argumentsOf? opening.word ℓ.text = some arguments) : ℓ.opening = opening := by
  obtain ⟨rest, hrest, -⟩ := Option.bind_eq_some_iff.mp h
  refine Line.Opening.word_injective ?_
  have hword : ∀ c ∈ opening.word.toList, decide (c ≠ '(') = true := fun c hc =>
    decide_eq_true fun heq => opening.not_mem_bracket_word (heq ▸ hc)
  rw [← String.toList_inj, ← Line.takeWhile_text, Text.eq_append_of_afterPrefix? hrest,
    String.toList_append, String.toList_append, List.append_assoc]
  exact Text.takeWhile_append_eq hword (by simp)

theorem argumentsOf?_eq_none {opening : Line.Opening} (h : ℓ.opening ≠ opening) :
    argumentsOf? opening.word ℓ.text = none :=
  Option.eq_none_iff_forall_ne_some.mpr fun _ harguments => h (opening_of_argumentsOf? harguments)

section FactsAmong

variable {opening : Line.Opening} {lines more : List Line}

theorem factsAmong_append :
    factsAmong opening (lines ++ more) = factsAmong opening lines ++ factsAmong opening more :=
  List.filterMap_append

theorem factsAmong_eq_nil (h : ∀ ℓ ∈ lines, ℓ.opening ≠ opening) :
    factsAmong opening lines = [] :=
  List.filterMap_eq_nil_iff.mpr fun ℓ hℓ => argumentsOf?_eq_none (h ℓ hℓ)

theorem factsAmong_cons_of_ne (h : ℓ.opening ≠ opening) :
    factsAmong opening (ℓ :: lines) = factsAmong opening lines :=
  List.filterMap_cons_none (argumentsOf?_eq_none h)

theorem factsAmong_cons {arguments : String}
    (h : ℓ.text = opening.word ++ "(" ++ arguments ++ ").") :
    factsAmong opening (ℓ :: lines) = arguments :: factsAmong opening lines :=
  List.filterMap_cons_some (h ▸ argumentsOf?_append _ _)

theorem factsAmong_map_eq_nil {α : Type} {line : α → Line} {as : List α}
    (h : ∀ a, (line a).opening ≠ opening) : factsAmong opening (as.map line) = [] := by
  refine factsAmong_eq_nil fun ℓ hℓ => ?_
  obtain ⟨a, -, rfl⟩ := List.mem_map.mp hℓ
  exact h a

theorem factsAmong_map {α : Type} {line : α → Line} {arguments : α → String} {as : List α}
    (h : ∀ a, (line a).text = opening.word ++ "(" ++ arguments a ++ ").") :
    factsAmong opening (as.map line) = as.map arguments := by
  induction as with
  | nil => rfl
  | cons a as ih => rw [List.map_cons, List.map_cons, factsAmong_cons (h a), ih]

end FactsAmong

/-! ### Parts of the text -/

/-- What is read of the lines of one part only stands in this part. -/
theorem filterMap_instanceLines {α : Type} {f : Line → Option α} {part : Part}
    (h : ∀ ℓ a, f ℓ = some a → ℓ.part? = some part) :
    (instanceLines t options purpose).filterMap f =
      (partLines t options purpose part).filterMap f := by
  have hother : ∀ other, other ≠ part →
      (partLines t options purpose other).filterMap f = [] := by
    refine fun other hne => List.filterMap_eq_nil_iff.mpr fun ℓ hℓ => ?_
    refine Option.eq_none_iff_forall_ne_some.mpr fun a ha => hne ?_
    exact (part?_of_mem_partLines hℓ (h ℓ a ha)).symm
  have hparts : instanceLines t options purpose =
      partLines t options purpose .declarations ++ partLines t options purpose .mutexes ++
        partLines t options purpose .initial ++ partLines t options purpose .goal ++
        partLines t options purpose .actions := rfl
  rw [hparts]
  simp only [List.filterMap_append]
  cases part <;> simp [hother]

/-- The part that has the lines with an opening; those of the initial state and of the goal have one
opening in common. -/
def Line.Opening.part? : Opening → Option Part
  | blank | holds => none
  | variableRange | variableValue => some .declarations
  | mutexGroup | mutex => some .mutexes
  | fails => some .initial
  | goal => some .goal
  | actionType | action | precondition | numEffects | actionEffect | add | del | notAffects
  | precedence | maxOutcomes => some .actions

theorem Line.part?_of_opening {part : Part} (h : ℓ.opening.part? = some part) :
    ℓ.part? = some part := by
  cases ℓ <;> cases h <;> rfl

/-- The facts of a predicate are read off the part that has its lines. -/
theorem factsOf_instanceText (h : Sas.parse file = .ok t) (opening : Line.Opening) {part : Part}
    (hpart : opening.part? = some part) :
    factsOf opening.word (instanceText t options purpose) =
      factsAmong opening (partLines t options purpose part) := by
  rw [factsOf, lines_instanceText h, List.filterMap_map]
  refine filterMap_instanceLines fun ℓ _ harguments => Line.part?_of_opening ?_
  rw [opening_of_argumentsOf? harguments, hpart]

end StrongCyclic.Encoding
