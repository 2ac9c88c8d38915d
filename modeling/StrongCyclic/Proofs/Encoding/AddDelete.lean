import StrongCyclic.Proofs.Encoding.EffectMeaning
import StrongCyclic.Proofs.Sas.ListedFacts
import StrongCyclic.Proofs.Verification.OutcomeTags

/-!
Facts that one outcome both adds and deletes. What an effect deletes of a variable is the value that
the precondition asks for, whether or not the effect sets the variable to this very value; only where
the precondition leaves the variable open is the new value kept out of the delete list. So a fact is
both added and deleted just if the outcome sets a variable to the value that it asks for.
-/

namespace StrongCyclic

namespace State

theorem size_setAll (s : State) (pairs : List (Nat × Nat)) : (s.setAll pairs).size = s.size := by
  induction pairs generalizing s with
  | nil => rfl
  | cons pair pairs ih =>
    rw [setAll, List.foldl_cons, ← setAll, ih, size_set]

theorem size_ofPairs (size : Nat) (pairs : List (Nat × Nat)) :
    (ofPairs size pairs).size = size := by
  rw [ofPairs, size_setAll]
  simp [undefined, State.size]

end State

namespace Strips

variable {precondition effect : State} {sizes : List Nat} {var value : Nat}

/-- An effect adds and deletes a fact just if the precondition asks for it and the effect sets it. -/
theorem adds_and_deletes_derive_iff :
    (derive precondition effect sizes).add.value? var = some value ∧
        (var, value) ∈ (derive precondition effect sizes).deleted ↔
      precondition.value? var = some value ∧ effect.value? var = some value := by
  rw [mem_deleted_derive]
  change effect.value? var = some value ∧ _ ↔ _
  constructor
  · rintro ⟨hadd, next, hnext, hold | ⟨-, -, hne⟩⟩
    · exact ⟨hold, hadd⟩
    · exact absurd (Option.some.inj (hadd.symm.trans hnext)) hne
  · rintro ⟨hold, hadd⟩
    exact ⟨hadd, value, hadd, .inl hold⟩

end Strips

namespace Sas

variable {sizes : List Nat} {var value : Nat}

namespace Operator

/-- The pairs that an operator sets. -/
def assignments (op : Operator) : List (Nat × Nat) :=
  op.changes.map fun change => (change.var, change.next)

/-- The operator sets the variable to the value that it asks for. Where it lists a variable more than
once, the last pair counts. -/
def Restates (op : Operator) (var value : Nat) : Prop :=
  LastIn op.conditions var value ∧ LastIn op.assignments var value

end Operator

theorem effectOf_described (op : Operator) :
    Action.effectOf (factState sizes op.prevail).size (op.changes.map Change.described) =
      State.ofPairs sizes.length op.assignments := by
  have hsize : (factState sizes op.prevail).size = sizes.length := State.size_ofPairs _ _
  rw [Action.effectOf, hsize, List.map_map]
  rfl

/-- What the effect of an operator adds and deletes at once are the pairs that it restates. -/
theorem strips_described {op : Operator} (h : op.Fits sizes) : ∃ s,
    (op.described sizes).effects = [s.add] ∧ (op.described sizes).strips = [s] ∧
      ∀ var value, s.add.value? var = some value ∧ (var, value) ∈ s.deleted ↔
        op.Restates var value := by
  refine ⟨_, rfl, rfl, fun var value => ?_⟩
  have hvars : ∀ pair ∈ op.assignments, pair.1 < sizes.length := fun pair hpair => by
    obtain ⟨change, hchange, rfl⟩ := List.mem_map.mp hpair
    exact (h.2 change hchange).1.lt
  have hconditions := (keepsLast_described h).1 var value
  have hassignments := (State.keepsLast_ofPairs hvars).1 var value
  rw [Strips.adds_and_deletes_derive_iff, effectOf_described]
  exact and_congr hconditions hassignments

end Sas

namespace Task

/-- Every action of a task has a tag in its operator. -/
theorem exists_tagged_ofActions {vars : List Variable} {initial goal : State} {mutexes : List State}
    {actions : List Action} {a : Action} (h : a ∈ actions) :
    ∃ tag, (ofActions vars initial goal mutexes actions).Tagged a.groupKey tag a := by
  obtain ⟨outcomes, hgroup, hmem⟩ := exists_mem_groupByOperator h
  obtain ⟨index, hget⟩ := List.mem_iff_getElem?.mp hmem
  exact ⟨_, outcomes, index, mem_groupByOperator_iff.mp hgroup, hget, rfl⟩

end Task

namespace Encoding

variable {t : Task} {name tag : String} {outcome : Action} {s : Strips} {options : Options}
  {purpose : Purpose} {var value : Nat}

/-- The add and delete lines of a tag are those of the outcome that it stands for. -/
theorem mem_instanceLines_adds_and_deletes (ht : (t.groups.map Prod.fst).Nodup)
    (htag : t.Tagged name tag outcome) (hs : outcome.strips = [s]) :
    .add name tag var value ∈ instanceLines t options purpose ∧
        .del name tag var value ∈ instanceLines t options purpose ↔
      s.add.value? var = some value ∧ (var, value) ∈ s.deleted := by
  have hline {ℓ : Line} (h : ℓ.outcome? = some (name, tag)) :
      ℓ ∈ instanceLines t options purpose ↔
        ℓ ∈ effectLines t.vars.length options.notAffects name tag s := by
    rw [mem_instanceLines_tagged ht h]
    constructor
    · rintro ⟨other, s', hother, hs', hmem⟩
      obtain rfl := htag.unique hother
      rw [hs] at hs'
      exact Option.some.inj hs' ▸ hmem
    · exact fun hmem => ⟨outcome, s, htag, by rw [hs]; rfl, hmem⟩
  rw [hline rfl, hline rfl, mem_effectLines_add, mem_effectLines_del]

end Encoding

namespace Sas

open Encoding

/-- For each operator of a file that is read, the pairs that its effect both adds and deletes are those
that it restates, and for these and no others an instance has both an add and a delete line under a
tag of the operator. -/
theorem parse_adds_and_deletes_iff {text : String} {t : Task} (h : parse text = .ok t)
    {blocks : List Block} (hblocks : Splits (fileLines text) blocks) :
    ∀ op ∈ operatorsOf blocks, ∃ a s, op.action t.domainSizes = .ok a ∧
      a.effects = [s.add] ∧ a.strips = [s] ∧
      (∀ var value, s.add.value? var = some value ∧ (var, value) ∈ s.deleted ↔
        op.Restates var value) ∧
      (∃ tag, t.Tagged a.groupKey tag a) ∧
      ∀ tag, t.Tagged a.groupKey tag a → ∀ options purpose var value,
        Line.add a.groupKey tag var value ∈ instanceLines t options purpose ∧
            Line.del a.groupKey tag var value ∈ instanceLines t options purpose ↔
          op.Restates var value := by
  obtain ⟨⟨_, values, hsplits, hfits, rfl⟩, hno⟩ := parse_eq_ok_iff.mp h
  obtain rfl := hblocks.unique hsplits hno
  intro op hop
  obtain ⟨s, heffects, hstrips, hboth⟩ := strips_described (hfits.operators op hop)
  refine ⟨_, s, action_eq_ok_iff.mpr ⟨hfits.operators op hop, rfl⟩, heffects, hstrips, hboth,
    Task.exists_tagged_ofActions (List.mem_map_of_mem hop),
    fun tag htag options purpose var value => ?_⟩
  exact (mem_instanceLines_adds_and_deletes (Task.nodup_keys_groupByOperator _) htag hstrips).trans
    (hboth var value)

theorem Reader.splits_of_blocks {lines : List Line} {found : List Block} {c : Cursor}
    (h : blocks ⟨0, lines⟩ = .ok (found, c)) : Splits lines found :=
  (splits_of_blocksWithin (c := ⟨0, lines⟩) (Nat.le_refl _) h).1

/-- A door that is pushed open, or held open once it is. -/
def heldDoorFile : String :=
  Text.unlines
    ["begin_variable", "door", "-1", "2", "closed", "open", "end_variable",
      "begin_state", "0", "end_state",
      "begin_goal", "1", "0 1", "end_goal",
      "begin_operator", "push", "0", "1", "0 0 0 1", "1", "end_operator",
      "begin_operator", "hold", "0", "1", "0 0 1 1", "1", "end_operator"]

/-- Pushing the door open. -/
def pushing : Operator :=
  ⟨⟨"push", "push", none, []⟩, [], [⟨19, 0, 0, 1⟩], 1⟩

/-- Holding the open door open. -/
def holding : Operator :=
  ⟨⟨"hold", "hold", none, []⟩, [], [⟨26, 0, 1, 1⟩], 1⟩

/-- The blocks of the file. -/
def heldDoorBlocks : List Block :=
  [.variable ⟨"door", ["closed", "open"]⟩, .state 8 [0], .goal [⟨13, 0, 1⟩], .operator pushing,
    .operator holding]

/-- The task of the file. -/
def heldDoor : Task :=
  Verification.openDoor [pushing.described [2], holding.described [2]]

theorem splits_heldDoorFile : Splits (fileLines heldDoorFile) heldDoorBlocks := by
  rw [heldDoorFile, fileLines_unlines (by decide +kernel)]
  exact Reader.splits_of_blocks (c := ⟨28, []⟩) (by decide +kernel)

theorem parse_heldDoorFile : parse heldDoorFile = .ok heldDoor := by
  refine parse_eq_ok.mpr ⟨heldDoorBlocks, [0], splits_heldDoorFile, by decide, ?_, rfl⟩
  exact
    { initial := rfl
      values := .cons (by decide) .nil
      goal := by decide
      mutexes := by decide
      operators := by decide }

theorem restates_holding : holding.Restates 0 1 :=
  ⟨⟨[], [], rfl, nofun⟩, ⟨[], [], rfl, nofun⟩⟩

/-- Holding the door adds and deletes that it is open, and pushing it does not. -/
theorem parse_adds_and_deletes_iff_heldDoor :
    (∀ options purpose, Line.add "hold()" "e1" 0 1 ∈ instanceLines heldDoor options purpose ∧
      Line.del "hold()" "e1" 0 1 ∈ instanceLines heldDoor options purpose) ∧
    ∀ options purpose, ¬(Line.add "push()" "e1" 0 1 ∈ instanceLines heldDoor options purpose ∧
      Line.del "push()" "e1" 0 1 ∈ instanceLines heldDoor options purpose) := by
  have hall := parse_adds_and_deletes_iff parse_heldDoorFile splits_heldDoorFile
  obtain ⟨held, -, hheld, -, -, -, -, hholding⟩ := hall holding (by decide)
  obtain ⟨pushed, -, hpushed, -, -, -, -, hpushing⟩ := hall pushing (by decide)
  obtain rfl : holding.described [2] = held :=
    Except.ok.inj ((by decide +kernel : _ = _).symm.trans hheld)
  obtain rfl : pushing.described [2] = pushed :=
    Except.ok.inj ((by decide +kernel : _ = _).symm.trans hpushed)
  have hhold : heldDoor.Tagged "hold()" "e1" (holding.described [2]) :=
    ⟨_, 0, rfl, rfl, rfl⟩
  have hpush : heldDoor.Tagged "push()" "e1" (pushing.described [2]) :=
    ⟨_, 0, rfl, rfl, rfl⟩
  refine ⟨fun options purpose => (hholding "e1" hhold options purpose 0 1).mpr restates_holding,
    fun options purpose hlines => ?_⟩
  obtain ⟨hcondition, -⟩ := (hpushing "e1" hpush options purpose 0 1).mp hlines
  exact absurd hcondition.mem (by decide)

/-- Some operators restate a pair, so neither the effects nor the lines of an instance are free of
facts that are added and deleted at once. -/
theorem not_forall_adds_or_deletes :
    (¬∀ (text : String) (t : Task), parse text = .ok t →
      ∀ key outcomes, (key, outcomes) ∈ t.groups → ∀ outcome ∈ outcomes, ∀ s ∈ outcome.strips,
        ∀ var value, ¬(s.add.value? var = some value ∧ (var, value) ∈ s.deleted)) ∧
    ¬∀ (text : String) (t : Task), parse text = .ok t → ∀ options purpose key tag var value,
      ¬(Line.add key tag var value ∈ instanceLines t options purpose ∧
        Line.del key tag var value ∈ instanceLines t options purpose) := by
  constructor
  · intro h
    exact h heldDoorFile heldDoor parse_heldDoorFile "hold()" [holding.described [2]] (by decide)
      _ (.head _) _ (.head _) 0 1 (by decide)
  · intro h
    exact h heldDoorFile heldDoor parse_heldDoorFile {} .controller "hold()" "e1" 0 1
      ⟨by decide +kernel, by decide +kernel⟩

end Sas

end StrongCyclic
