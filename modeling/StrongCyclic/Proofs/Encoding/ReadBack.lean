import StrongCyclic.Proofs.Encoding.LineText
import StrongCyclic.Proofs.Encoding.OperatorLines
import StrongCyclic.Proofs.Sas.GroupKeys

/-!
Reading a task back from its instance. The lines are read from the last one to the first, so that what
belongs to a mutex group, an outcome or an operator has been collected when the line that opens it is
met. `Reading` is what has been collected so far; the reading of an instance holds what the task says,
list by list, and a well-formed task is told by these lists.
-/

namespace StrongCyclic.Encoding

/-! ### Readings -/

/-- What has been read of an operator: its key, its type, the pairs of its precondition, and the added
and deleted pairs of each outcome. -/
structure OperatorReading where
  key : String
  type : String
  precondition : List (Nat × Nat)
  outcomes : List (List (Nat × Nat) × List (Nat × Nat))

/-- What has been read of an instance, and the pairs that wait for the line that they belong to. -/
structure Reading where
  /-- The last value of each variable. -/
  lastValues : List Int
  mutexSets : List (List (Nat × Nat))
  holds : List (Nat × Nat)
  fails : List (Nat × Nat)
  goal : List (Nat × Nat)
  operators : List OperatorReading
  /-- Pairs that wait for their mutex group. -/
  mutex : List (Nat × Nat)
  /-- Added and deleted pairs that wait for their outcome. -/
  add : List (Nat × Nat)
  del : List (Nat × Nat)
  /-- Pairs and outcomes that wait for their operator. -/
  precondition : List (Nat × Nat)
  outcomes : List (List (Nat × Nat) × List (Nat × Nat))

namespace Reading

/-- Nothing has been read. -/
def empty : Reading :=
  ⟨[], [], [], [], [], [], [], [], [], [], []⟩

/-- Takes over the line in front of what has been read. -/
def take : Line → Reading → Reading
  | .variableValues _ last, r => { r with lastValues := last :: r.lastValues }
  | .mutex _ var value, r => { r with mutex := (var, value) :: r.mutex }
  | .mutexGroup _, r => { r with mutexSets := r.mutex :: r.mutexSets, mutex := [] }
  | .holdsInitially var value, r => { r with holds := (var, value) :: r.holds }
  | .failsInitially var value, r => { r with fails := (var, value) :: r.fails }
  | .goal var value, r => { r with goal := (var, value) :: r.goal }
  | .add _ _ var value, r => { r with add := (var, value) :: r.add }
  | .del _ _ var value, r => { r with del := (var, value) :: r.del }
  | .actionEffect _ _, r =>
    { r with outcomes := (r.add, r.del) :: r.outcomes, add := [], del := [] }
  | .precondition _ var value, r => { r with precondition := (var, value) :: r.precondition }
  | .typedAction type name, r =>
    { r with
      operators := ⟨name, type, r.precondition, r.outcomes⟩ :: r.operators
      precondition := []
      outcomes := [] }
  | _, r => r

/-- What is read from lines in front of what has been read. -/
def read (lines : List Line) (r : Reading) : Reading :=
  lines.foldr take r

theorem read_nil (r : Reading) : read [] r = r :=
  rfl

theorem read_append (before after : List Line) (r : Reading) :
    read (before ++ after) r = read before (read after r) :=
  List.foldr_append

theorem read_cons (ℓ : Line) (lines : List Line) (r : Reading) :
    read (ℓ :: lines) r = take ℓ (read lines r) :=
  rfl

/-- Lines that say nothing new. -/
theorem read_of_forall {lines : List Line} (h : ∀ ℓ ∈ lines, ∀ r, take ℓ r = r) (r : Reading) :
    read lines r = r := by
  induction lines with
  | nil => rfl
  | cons ℓ lines ih =>
    obtain ⟨hℓ, hlines⟩ := List.forall_mem_cons.mp h
    rw [read_cons, hℓ, ih hlines]

/-- Groups of lines of which each adds one entry to a list. -/
theorem read_flatMap {α : Type} (lines : α → List Line) (add : List α → Reading → Reading)
    (hnil : ∀ r, add [] r = r) (hcons : ∀ a as r, read (lines a) (add as r) = add (a :: as) r)
    (as : List α) (r : Reading) : read (as.flatMap lines) r = add as r := by
  induction as with
  | nil => exact (hnil r).symm
  | cons a as ih => rw [List.flatMap_cons, read_append, ih, hcons]

theorem read_map {α : Type} (line : α → Line) (add : List α → Reading → Reading)
    (hnil : ∀ r, add [] r = r) (hcons : ∀ a as r, take (line a) (add as r) = add (a :: as) r)
    (as : List α) (r : Reading) : read (as.map line) r = add as r := by
  rw [List.map_eq_flatMap]
  exact read_flatMap (fun a => [line a]) add hnil hcons as r

end Reading

open Reading (read take read_append read_cons read_map read_flatMap read_of_forall)

variable {t : Task} {options : Options} {purpose : Purpose}

/-! ### Variables, mutex groups, initial state and goal -/

/-- The last value of each variable. -/
def lastValues (vars : List Variable) : List Int :=
  vars.map fun v => v.domainSize - 1

theorem read_variableLines (vars : List Variable) (r : Reading) :
    read (variableLines vars) r = { r with lastValues := lastValues vars ++ r.lastValues } := by
  have hvalues := read_map (fun (v, var) => Line.variableValues var (v.domainSize - 1))
    (fun pairs r => { r with lastValues := lastValues (pairs.map Prod.fst) ++ r.lastValues })
    (fun _ => rfl) (fun _ _ _ => rfl) vars.zipIdx r
  rw [List.zipIdx_map_fst] at hvalues
  rw [variableLines, List.mapIdx_eq_zipIdx_map, List.cons_append, read_cons, read_append]
  exact hvalues

theorem read_mutexPairs (group : Nat) (pairs : List (Nat × Nat)) (r : Reading) :
    read (pairs.map fun (var, value) => Line.mutex group var value) r =
      { r with mutex := pairs ++ r.mutex } :=
  read_map _ (fun pairs r => { r with mutex := pairs ++ r.mutex }) (fun _ => rfl)
    (fun _ _ _ => rfl) pairs r

theorem read_mutexLinesFrom (group : Nat) (sets : List (List (Nat × Nat))) {r : Reading}
    (h : r.mutex = []) :
    read (mutexLinesFrom group sets) r = { r with mutexSets := sets ++ r.mutexSets } := by
  induction sets generalizing group with
  | nil => rfl
  | cons pairs sets ih =>
    rw [mutexLinesFrom, List.cons_append, read_cons, read_append, ih, read_mutexPairs]
    simp [take, h]

theorem read_mutexLines {r : Reading} (h : r.mutex = []) : read (mutexLines t) r =
    { r with mutexSets := (mutexSets t ++ variableSets t) ++ r.mutexSets } := by
  rw [mutexLines, read_append]
  exact read_mutexLinesFrom 1 _ h

theorem read_positiveLines (r : Reading) :
    read (positiveLines t) r = { r with holds := t.initial.pairs ++ r.holds } := by
  rw [positiveLines, read_append]
  exact read_map _ (fun pairs r => { r with holds := pairs ++ r.holds }) (fun _ => rfl)
    (fun _ _ _ => rfl) _ r

/-- The pairs that do not hold in the initial state. -/
def failing (t : Task) : List (Nat × Nat) :=
  t.initial.pairs.flatMap fun (var, value) =>
    ((List.range (t.domainSizes.getD var 0)).filter (· ≠ value)).map fun other => (var, other)

theorem read_negativeLines (r : Reading) :
    read (negativeLines t) r = { r with fails := failing t ++ r.fails } := by
  have hlines : negativeLines t =
      ((failing t).map fun (var, value) => Line.failsInitially var value) ++ [.blank] := by
    simp only [negativeLines, failing, List.map_flatMap, List.map_map]
    rfl
  rw [hlines, read_append]
  exact read_map _ (fun pairs r => { r with fails := pairs ++ r.fails }) (fun _ => rfl)
    (fun _ _ _ => rfl) _ r

/-- The initial pairs that are written as holding. -/
def writtenHolding (t : Task) : InitialValues → List (Nat × Nat)
  | .negative => []
  | .positive | .both => t.initial.pairs

/-- The pairs that are written as failing. -/
def writtenFailing (t : Task) : InitialValues → List (Nat × Nat)
  | .positive => []
  | .negative | .both => failing t

theorem read_initialLines (values : InitialValues) (r : Reading) :
    read (initialLines t values) r =
      { r with holds := writtenHolding t values ++ r.holds
               fails := writtenFailing t values ++ r.fails } := by
  cases values with
  | positive => exact read_positiveLines r
  | negative => exact read_negativeLines r
  | both => rw [initialLines, read_append, read_negativeLines, read_positiveLines]; rfl

theorem read_goalLines (r : Reading) :
    read (goalLines t purpose) r = { r with goal := t.goal.pairs ++ r.goal } := by
  cases purpose with
  | controller =>
    rw [goalLines, read_append]
    exact read_flatMap _ (fun pairs r => { r with goal := pairs ++ r.goal }) (fun _ => rfl)
      (fun _ _ _ => rfl) _ r
  | weakPlan =>
    rw [goalLines, read_append]
    exact read_map _ (fun pairs r => { r with goal := pairs ++ r.goal }) (fun _ => rfl)
      (fun _ _ _ => rfl) _ r

/-! ### Operators -/

variable {numVariables : Nat} {frame : Bool} {name : String}

theorem read_effectLines (tag : String) (s : Strips) (r : Reading) :
    read (effectLines numVariables frame name tag s) r =
      { r with add := s.add.pairs ++ r.add, del := s.deleted ++ r.del } := by
  have hframe : read (if frame then ((List.range numVariables).filter
      (· ∉ affectedVariables s)).map (Line.notAffects name tag) else []) r = r := by
    refine read_of_forall (fun ℓ hℓ r => ?_) r
    split at hℓ
    · obtain ⟨var, -, rfl⟩ := List.mem_map.mp hℓ
      rfl
    · cases hℓ
  have hdel := read_map (fun (var, value) => Line.del name tag var value)
    (fun pairs r => { r with del := pairs ++ r.del }) (fun _ => rfl) (fun _ _ _ => rfl)
  have hadd := read_map (fun (var, value) => Line.add name tag var value)
    (fun pairs r => { r with add := pairs ++ r.add }) (fun _ => rfl) (fun _ _ _ => rfl)
  rw [effectLines, read_append, read_append, hframe, hdel, hadd]

/-- The added and the deleted pairs of an outcome. -/
def outcomeReading (outcome : Action) : List (Nat × Nat) × List (Nat × Nat) :=
  match outcome.strips.head? with
  | some s => (s.add.pairs, s.deleted)
  | none => ([], [])

theorem read_outcomeLines (index : Nat) (outcome : Action) {r : Reading} (hadd : r.add = [])
    (hdel : r.del = []) : read (outcomeLines numVariables frame name index outcome) r =
      { r with outcomes := outcomeReading outcome :: r.outcomes } := by
  rw [outcomeLines, read_cons, outcomeReading]
  cases outcome.strips.head? with
  | none => simp [Reading.read_nil, take, hadd, hdel]
  | some s => simp [read_effectLines, take, hadd, hdel]

theorem read_outcomes (outcomes : List Action) {r : Reading} (hadd : r.add = [])
    (hdel : r.del = []) :
    read (outcomes.mapIdx (outcomeLines numVariables frame name)).flatten r =
      { r with outcomes := outcomes.map outcomeReading ++ r.outcomes } := by
  -- the numbers stand in the tags only, which are not read, so any numbering will do
  have hnumbered : ∀ numbered : List (Action × Nat),
      read (numbered.flatMap fun (outcome, index) =>
          outcomeLines numVariables frame name index outcome) r =
        { r with outcomes := (numbered.map Prod.fst).map outcomeReading ++ r.outcomes } := by
    intro numbered
    induction numbered with
    | nil => rfl
    | cons first rest ih =>
      rw [List.flatMap_cons, read_append, ih]
      exact read_outcomeLines first.2 first.1 hadd hdel
  have hread := hnumbered outcomes.zipIdx
  rwa [List.zipIdx_map_fst, List.flatMap_def, ← List.mapIdx_eq_zipIdx_map] at hread

theorem read_operatorLines (first : Action) (outcomes : List Action) (ops : List OperatorReading) :
    read (operatorLines numVariables frame name first outcomes)
        { Reading.empty with operators := ops } =
      { Reading.empty with operators := ⟨name, first.header.stem, first.precondition.pairs,
          outcomes.map outcomeReading⟩ :: ops } := by
  have hprecondition := read_map (fun (var, value) => Line.precondition name var value)
    (fun pairs r => { r with precondition := pairs ++ r.precondition }) (fun _ => rfl)
    (fun _ _ _ => rfl)
  rw [operatorLines, List.cons_append, List.cons_append, read_cons, read_cons, read_append,
    read_cons, read_outcomes outcomes rfl rfl, hprecondition]
  simp [take, Reading.empty]

/-- What is read of an operator; an operator without outcomes is not written. -/
def operatorReading? : String × List Action → Option OperatorReading
  | (_, []) => none
  | (name, first :: rest) =>
    some ⟨name, first.header.stem, first.precondition.pairs, (first :: rest).map outcomeReading⟩

theorem read_operatorsFrom (announced : List String) (groups : List (String × List Action))
    (ops : List OperatorReading) :
    read (operatorsFrom numVariables frame announced groups) { Reading.empty with operators := ops } =
      { Reading.empty with operators := groups.filterMap operatorReading? ++ ops } := by
  induction groups generalizing announced with
  | nil => rfl
  | cons group groups ih =>
    obtain ⟨name, _ | ⟨first, rest⟩⟩ := group
    · exact ih announced
    · have htype : ∀ r, read (if first.header.stem ∈ announced then []
          else [.actionType first.header.stem]) r = r := by
        intro r
        split <;> rfl
      rw [operatorsFrom, read_append, read_append, ih, read_operatorLines, htype]
      rfl

theorem read_actionLines : read (actionLines t options) .empty =
    { Reading.empty with operators := t.groups.filterMap operatorReading? } := by
  have hprecedence : ∀ ℓ ∈ (if options.precedence then precedenceLines t.maxOutcomes else []),
      ∀ r, take ℓ r = r := by
    intro ℓ hℓ r
    split at hℓ
    · obtain ⟨index, -, rfl⟩ := List.mem_map.mp hℓ
      rfl
    · cases hℓ
  have hlast : read [Line.maxOutcomes t.maxOutcomes, .blank] .empty =
      { Reading.empty with operators := [] } := rfl
  rw [actionLines, read_append, read_append, hlast, read_of_forall hprecedence,
    read_operatorsFrom, List.append_nil]

/-- What is read of an instance is what the task says. -/
theorem read_instanceLines : read (instanceLines t options purpose) .empty =
    { Reading.empty with
      lastValues := lastValues t.vars
      mutexSets := mutexSets t ++ variableSets t
      holds := writtenHolding t options.initialValues
      fails := writtenFailing t options.initialValues
      goal := t.goal.pairs
      operators := t.groups.filterMap operatorReading? } := by
  rw [instanceLines, read_append, read_append, read_append, read_append, read_actionLines,
    read_goalLines, read_initialLines, read_mutexLines rfl, read_variableLines]
  simp [Reading.empty]

end StrongCyclic.Encoding
