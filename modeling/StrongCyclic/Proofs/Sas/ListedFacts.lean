import StrongCyclic.Proofs.Encoding.Parts
import StrongCyclic.Proofs.Planning.LastListed
import StrongCyclic.Proofs.Sas.Format

/-!
What becomes of the pairs that a file lists. Mutex groups, goals and preconditions are states, so of
each variable the pair that is listed last stands. A block whose variables are each listed with one
value loses nothing.
-/

namespace StrongCyclic

namespace Task

/-- An action stays among those collected for its operator, and is there once it has been pushed. -/
theorem exists_lookup_foldl_push {a : Action} {actions : List Action}
    {index : List (String × List Action)}
    (h : a ∈ actions ∨ ∃ outcomes, index.lookup a.groupKey = some outcomes ∧ a ∈ outcomes) :
    ∃ outcomes, (actions.foldl (fun index b => Keyed.push b.groupKey b index) index).lookup
      a.groupKey = some outcomes ∧ a ∈ outcomes := by
  induction actions generalizing index with
  | nil => exact h.resolve_left List.not_mem_nil
  | cons b actions ih =>
    refine ih ?_
    dsimp only
    rw [Keyed.push, Keyed.lookup_alter]
    rcases h with hmem | ⟨outcomes, hlookup, hmem⟩
    · rcases List.mem_cons.mp hmem with rfl | hmem
      · rw [if_pos rfl]
        refine .inr ⟨_, rfl, ?_⟩
        cases index.lookup a.groupKey <;> simp
      · exact .inl hmem
    · by_cases hkey : a.groupKey = b.groupKey
      · rw [if_pos hkey, ← hkey, hlookup]
        exact .inr ⟨outcomes ++ [b], rfl, List.mem_append_left _ hmem⟩
      · rw [if_neg hkey]
        exact .inr ⟨outcomes, hlookup, hmem⟩

/-- Every action is among the outcomes of its operator. -/
theorem exists_mem_groupByOperator {actions : List Action} {a : Action} (h : a ∈ actions) :
    ∃ outcomes, (a.groupKey, outcomes) ∈ groupByOperator actions ∧ a ∈ outcomes := by
  obtain ⟨collected, hlookup, hmem⟩ := @exists_lookup_foldl_push a actions [] (.inl h)
  obtain ⟨before, after, hindex, -⟩ := List.lookup_eq_some_iff.mp hlookup
  refine ⟨Sorted.sortBy Action.outcomeRank collected,
    List.mem_map.mpr ⟨(a.groupKey, collected), ?_, rfl⟩,
    (Sorted.sortBy_perm Action.outcomeRank collected).mem_iff.mpr hmem⟩
  rw [collectByOperator, hindex]
  simp

end Task

namespace Sas

variable {sizes : List Nat}

theorem HasValue.lt {var value : Nat} (h : HasValue sizes var value) : var < sizes.length := by
  obtain ⟨size, hsize, -⟩ := h
  exact (List.getElem?_eq_some_iff.mp hsize).1

theorem keepsLast_factState {facts : List Fact} (h : ∀ fact ∈ facts, fact.Fits sizes) :
    KeepsLast (facts.map Fact.pair) fun var value => (factState sizes facts).value? var = some value := by
  refine State.keepsLast_ofPairs fun pair hpair => ?_
  obtain ⟨fact, hfact, rfl⟩ := List.mem_map.mp hpair
  exact (h fact hfact).lt

/-- The pairs that an operator asks for: its prevail pairs and behind them the previous values of its
changes. -/
def Operator.conditions (op : Operator) : List (Nat × Nat) :=
  op.prevail.map Fact.pair ++
    op.changes.filterMap fun change => change.previous.map fun value => (change.var, value)

theorem keepsLast_described {op : Operator} (h : op.Fits sizes) :
    KeepsLast op.conditions fun var value =>
      (op.described sizes).precondition.value? var = some value := by
  have hprecondition : (op.described sizes).precondition =
      State.ofPairs sizes.length op.conditions := by
    rw [Operator.conditions, State.ofPairs_append, Operator.described, Action.ofChanges]
    dsimp only
    rw [Action.liftPrevious_eq, List.filterMap_map]
    rfl
  rw [hprecondition]
  refine State.keepsLast_ofPairs fun pair hpair => ?_
  rcases List.mem_append.mp hpair with hpair | hpair
  · obtain ⟨fact, hfact, rfl⟩ := List.mem_map.mp hpair
    exact (h.1 fact hfact).lt
  · obtain ⟨change, hchange, hprevious⟩ := List.mem_filterMap.mp hpair
    obtain ⟨value, -, rfl⟩ := Option.map_eq_some_iff.mp hprevious
    exact (h.2 change hchange).1.lt

theorem Splits.unique {lines : List Line} {blocks blocks' : List Block} (h : Splits lines blocks)
    (h' : Splits lines blocks') (hno : ¬ Overruns lines) : blocks = blocks' := by
  obtain ⟨c, hc⟩ := Reader.blocksWithin_of_splits (c := ⟨0, lines⟩) h
    (h.roomy_of_not_overruns hno) rfl (Nat.le_refl _)
  obtain ⟨c', hc'⟩ := Reader.blocksWithin_of_splits (c := ⟨0, lines⟩) h'
    (h'.roomy_of_not_overruns hno) rfl (Nat.le_refl _)
  exact (Prod.mk.inj (Except.ok.inj (hc.symm.trans hc'))).1

/-- Facts about two variables at least are a mutex group that excludes something. -/
theorem pairs_mem_mutexSets {t : Task} {facts : List Fact} {s : State} (hs : s ∈ t.mutexes)
    (hkeeps : KeepsLast (facts.map Fact.pair) fun var value => s.value? var = some value)
    (hvars : ∃ fact ∈ facts, ∃ other ∈ facts, fact.var ≠ other.var) :
    s.pairs ∈ Encoding.mutexSets t := by
  obtain ⟨fact, hfact, other, hother, hne⟩ := hvars
  have hmem : ∀ f ∈ facts, ∃ value, (f.var, value) ∈ s.pairs := fun f hf => by
    obtain ⟨value, hvalue⟩ := exists_lastIn ⟨f.pair, List.mem_map_of_mem (f := Fact.pair) hf, rfl⟩
    exact ⟨value, (State.mem_pairs _ _ _).mpr ((hkeeps.1 _ _).mpr hvalue)⟩
  obtain ⟨value, hvalue⟩ := hmem fact hfact
  obtain ⟨value', hvalue'⟩ := hmem other hother
  have hlength : 1 < s.pairs.length := by
    cases hpairs : s.pairs with
    | nil => simp [hpairs] at hvalue
    | cons first rest =>
      cases rest with
      | nil =>
        rw [hpairs, List.mem_singleton] at hvalue hvalue'
        exact absurd (congrArg Prod.fst (hvalue.trans hvalue'.symm)) hne
      | cons second rest => simp
  exact List.mem_filter.mpr ⟨List.mem_map_of_mem hs, decide_eq_true hlength⟩

/-- Of the pairs that a block lists, the last of each variable stands: for the mutex blocks about
at least two variables as the members of one group, for the last goal block as the goal, and for the
operators as the precondition of the action. All pairs of a block stand just if none of its variables
is listed with two values. -/
theorem parse_keepsLast {text : String} {t : Task} (h : parse text = .ok t) {blocks : List Block}
    (hblocks : Splits (fileLines text) blocks) :
    (∀ facts ∈ mutexesOf blocks, (∃ fact ∈ facts, ∃ other ∈ facts, fact.var ≠ other.var) →
      ∃ group, ∀ options purpose, KeepsLast (facts.map Fact.pair) fun var value =>
        Encoding.Line.mutex group var value ∈ Encoding.instanceLines t options purpose) ∧
    (∀ options purpose, KeepsLast ((goalOf blocks).map Fact.pair) fun var value =>
      Encoding.Line.goal var value ∈ Encoding.instanceLines t options purpose) ∧
    ∀ op ∈ operatorsOf blocks, ∃ a outcomes, op.action t.domainSizes = .ok a ∧
      (a.groupKey, outcomes) ∈ t.groups ∧ a ∈ outcomes ∧
        KeepsLast op.conditions fun var value => a.precondition.value? var = some value := by
  obtain ⟨⟨_, values, hsplits, hfits, rfl⟩, hno⟩ := parse_eq_ok_iff.mp h
  obtain rfl := hsplits.unique hblocks hno
  refine ⟨fun facts hfacts hvars => ?_, fun options purpose => ?_, fun op hop => ?_⟩
  · have hkeeps := keepsLast_factState (hfits.mutexes facts hfacts)
    have hmem := pairs_mem_mutexSets (t := described _ values) (List.mem_map_of_mem hfacts) hkeeps hvars
    obtain ⟨group, hgroup⟩ := Encoding.exists_mutexGroup hmem
    refine ⟨group, fun options purpose => keepsLast_iff.mpr fun var value => ?_⟩
    rw [hgroup, State.mem_pairs]
    exact hkeeps.1 var value
  · refine keepsLast_iff.mpr fun var value => ?_
    rw [Encoding.mem_instanceLines_goal]
    exact (keepsLast_factState hfits.goal).1 var value
  · obtain ⟨outcomes, hgroup, hmem⟩ :=
      Task.exists_mem_groupByOperator (List.mem_map_of_mem (f := Operator.described _) hop)
    exact ⟨_, outcomes, action_eq_ok_iff.mpr ⟨hfits.operators op hop, rfl⟩, hgroup, hmem,
      keepsLast_described (hfits.operators op hop)⟩

/-- A door and a lamp, with a mutex block that lists both values of the door. -/
def lampFile : String :=
  Text.unlines
    ["begin_variable", "door", "-1", "2", "closed", "open", "end_variable",
      "begin_variable", "lamp", "-1", "2", "off", "on", "end_variable",
      "begin_mutex_group", "3", "0 0", "0 1", "1 0", "end_mutex_group",
      "begin_state", "0", "1", "end_state",
      "begin_goal", "1", "0 1", "end_goal"]

/-- The blocks of the file. -/
def lampBlocks : List Block :=
  [.variable ⟨"door", ["closed", "open"]⟩, .variable ⟨"lamp", ["off", "on"]⟩,
    .mutex [⟨17, 0, 0⟩, ⟨18, 0, 1⟩, ⟨19, 1, 0⟩], .state 21 [0, 1], .goal [⟨27, 0, 1⟩]]

/-- The task of the file: its mutex group has lost the pair of the closed door. -/
def lampTask : Task :=
  .ofActions [⟨"door", ["closed", "open"]⟩, ⟨"lamp", ["off", "on"]⟩] (.ofValues [0, 1])
    (.ofPairs 2 [(0, 1)]) [.ofPairs 2 [(0, 1), (1, 0)]] []

theorem splits_lampFile : Splits (fileLines lampFile) lampBlocks := by
  rw [lampFile, fileLines_unlines (by decide +kernel)]
  have isLayer (number : Nat) : (Line.mk number "-1").IsInteger (-1) := by
    change Text.integer? "-1" = some (-1)
    decide
  have isFact {number var value : Nat} {text : String} (first second : String)
      (hwords : Text.words text = [first, second]) (hvar : Text.integer? first = some (var : Int))
      (hvalue : Text.integer? second = some (value : Int)) :
      (Line.mk number text).IsFact ⟨number, var, value⟩ := by
    refine ⟨rfl, [], ?_⟩
    rw [Line.AreIntegers, hwords]
    exact .cons hvar (.cons hvalue .nil)
  have hdoor : Body ⟨1, "begin_variable"⟩
      (⟨2, "door"⟩ :: ⟨3, "-1"⟩ :: ⟨4, "2"⟩ ::
        ([⟨5, "closed"⟩, ⟨6, "open"⟩] ++ [⟨7, "end_variable"⟩]))
      (.variable ⟨"door", ["closed", "open"]⟩) :=
    .declaration rfl (isLayer 3) rfl rfl
  have hlamp : Body ⟨8, "begin_variable"⟩
      (⟨9, "lamp"⟩ :: ⟨10, "-1"⟩ :: ⟨11, "2"⟩ ::
        ([⟨12, "off"⟩, ⟨13, "on"⟩] ++ [⟨14, "end_variable"⟩]))
      (.variable ⟨"lamp", ["off", "on"]⟩) :=
    .declaration rfl (isLayer 10) rfl rfl
  have hmutex : Body ⟨15, "begin_mutex_group"⟩
      (⟨16, "3"⟩ :: ([⟨17, "0 0"⟩, ⟨18, "0 1"⟩, ⟨19, "1 0"⟩] ++ [⟨20, "end_mutex_group"⟩]))
      (.mutex [⟨17, 0, 0⟩, ⟨18, 0, 1⟩, ⟨19, 1, 0⟩]) :=
    .mutex rfl rfl (.cons (isFact "0" "0" rfl rfl rfl) (.cons (isFact "0" "1" rfl rfl rfl)
      (.cons (isFact "1" "0" rfl rfl rfl) .nil))) rfl
  have hstate : Body ⟨21, "begin_state"⟩ ([⟨22, "0"⟩, ⟨23, "1"⟩] ++ [⟨24, "end_state"⟩])
      (.state 21 [0, 1]) :=
    .state rfl (.cons rfl (.cons rfl .nil)) rfl
  have hgoal : Body ⟨25, "begin_goal"⟩ (⟨26, "1"⟩ :: ([⟨27, "0 1"⟩] ++ [⟨28, "end_goal"⟩]))
      (.goal [⟨27, 0, 1⟩]) :=
    .goal rfl rfl (.cons (isFact "0" "1" rfl rfl rfl) .nil) rfl
  exact .block hdoor (.block hlamp (.block hmutex (.block hstate (.block hgoal .nil))))

theorem parse_lampFile : parse lampFile = .ok lampTask := by
  refine parse_eq_ok.mpr ⟨lampBlocks, [0, 1], splits_lampFile, by decide, ?_, rfl⟩
  exact
    { initial := rfl
      values := .cons (by decide) (.cons (by decide) .nil)
      goal := by decide
      mutexes := by decide
      operators := nofun }

theorem parse_keepsLast_lamp :
    (∃ group, ∀ options purpose, KeepsLast [(0, 0), (0, 1), (1, 0)] fun var value =>
      Encoding.Line.mutex group var value ∈ Encoding.instanceLines lampTask options purpose) ∧
    ∀ options purpose, KeepsLast [(0, 1)] fun var value =>
      Encoding.Line.goal var value ∈ Encoding.instanceLines lampTask options purpose := by
  obtain ⟨hmutexes, hgoal, -⟩ := parse_keepsLast parse_lampFile splits_lampFile
  exact ⟨hmutexes _ (.head _) ⟨⟨18, 0, 1⟩, by decide, ⟨19, 1, 0⟩, by decide, by decide⟩, hgoal⟩

/-- Not every pair that is listed stands: no group of the encoded lamp has all three pairs. -/
theorem not_forall_listed_stand :
    ¬∀ (text : String) (t : Task) (blocks : List Block), parse text = .ok t →
      Splits (fileLines text) blocks →
      (∀ facts ∈ mutexesOf blocks, (∃ fact ∈ facts, ∃ other ∈ facts, fact.var ≠ other.var) →
        ∃ group, ∀ options purpose, ∀ fact ∈ facts, Encoding.Line.mutex group fact.var fact.value ∈
          Encoding.instanceLines t options purpose) ∧
      (∀ options purpose, ∀ fact ∈ goalOf blocks, Encoding.Line.goal fact.var fact.value ∈
        Encoding.instanceLines t options purpose) ∧
      ∀ op ∈ operatorsOf blocks, ∃ a, op.action t.domainSizes = .ok a ∧
        ∀ pair ∈ op.conditions, a.precondition.value? pair.1 = some pair.2 := by
  intro h
  obtain ⟨hmutexes, -⟩ := h lampFile lampTask lampBlocks parse_lampFile splits_lampFile
  obtain ⟨group, hgroup⟩ :=
    hmutexes _ (.head _) ⟨⟨18, 0, 1⟩, by decide, ⟨19, 1, 0⟩, by decide, by decide⟩
  have hsets : Encoding.mutexSets lampTask ++ Encoding.variableSets lampTask =
      [[(0, 1), (1, 0)], [(0, 0), (0, 1)], [(1, 0), (1, 1)]] := by
    decide
  have hmember : ∀ fact ∈ [Fact.mk 17 0 0, ⟨18, 0, 1⟩, ⟨19, 1, 0⟩], ∃ index pairs,
      [[(0, 1), (1, 0)], [(0, 0), (0, 1)], [(1, 0), (1, 1)]][index]? = some pairs ∧
        group = 1 + index ∧ (fact.var, fact.value) ∈ pairs := fun fact hfact => by
    have hmem := hgroup {} .controller fact hfact
    rwa [Encoding.mem_instanceLines_part rfl, Encoding.partLines, Encoding.mem_mutexLines rfl, hsets,
      Encoding.mem_mutexLinesFrom] at hmem
  obtain ⟨i, pairs, hget, rfl, hclosed⟩ := hmember ⟨17, 0, 0⟩ (.head _)
  obtain ⟨j, pairs', hget', heq, hoff⟩ := hmember ⟨19, 1, 0⟩ (by decide)
  obtain rfl : i = j := Nat.add_left_cancel heq
  obtain rfl : pairs = pairs' := Option.some.inj (hget.symm.trans hget')
  rcases i with _ | _ | _ | i
  · cases hget
    exact absurd hclosed (by decide)
  · cases hget
    exact absurd hoff (by decide)
  · cases hget
    exact absurd hclosed (by decide)
  · cases hget

end Sas

end StrongCyclic
