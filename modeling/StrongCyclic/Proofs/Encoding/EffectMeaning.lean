import StrongCyclic.Proofs.Encoding.OperatorLines
import StrongCyclic.Proofs.Planning.Progression
import StrongCyclic.Proofs.Sas.Checked
import StrongCyclic.Proofs.Verification.StrongCyclicity

/-!
The meaning of the effects that an instance describes. The solver takes the deleted facts of an
outcome away from a state and adds the added ones; progression writes the values of the effect over
those of the state. On the states in which the outcome can be applied the two are the same.
-/

namespace StrongCyclic.Encoding

/-- The facts that the lines add for an outcome. -/
def addedFacts (lines : List Line) (name tag : String) : Set (Nat × Nat) :=
  {fact | .add name tag fact.1 fact.2 ∈ lines}

/-- The facts that the lines delete for an outcome. -/
def deletedFacts (lines : List Line) (name tag : String) : Set (Nat × Nat) :=
  {fact | .del name tag fact.1 fact.2 ∈ lines}

/-! ### The lines of an effect -/

variable {numVariables : Nat} {frame : Bool} {name tag : String} {s : Strips} {var value : Nat}

theorem mem_effectLines_add :
    .add name tag var value ∈ effectLines numVariables frame name tag s ↔
      s.add.value? var = some value := by
  rw [← State.mem_pairs]
  simp [effectLines]

theorem mem_effectLines_del :
    .del name tag var value ∈ effectLines numVariables frame name tag s ↔
      (var, value) ∈ s.deleted := by
  simp [effectLines]

theorem mem_effectLines_notAffects :
    .notAffects name tag var ∈ effectLines numVariables frame name tag s ↔
      frame = true ∧ var < numVariables ∧ var ∉ affectedVariables s := by
  cases frame <;> simp [effectLines]

/-- An effect affects just the variables that it sets: it deletes no value of any other. -/
theorem mem_affectedVariables_derive {precondition effect : State} {sizes : List Nat} :
    var ∈ affectedVariables (.derive precondition effect sizes) ↔ effect.value? var ≠ none := by
  simp only [affectedVariables, List.mem_append, List.mem_map, Prod.exists, exists_and_right,
    exists_eq_right, Strips.mem_deleted_derive, Option.ne_none_iff_exists']
  constructor
  · rintro (⟨next, hnext⟩ | ⟨old, next, hnext, -⟩)
    · exact ⟨next, (State.mem_pairs effect var next).mp hnext⟩
    · exact ⟨next, hnext⟩
  · rintro ⟨next, hnext⟩
    exact .inl ⟨next, (State.mem_pairs effect var next).mpr hnext⟩

/-! ### Effects of a task that is read from a file -/

/-- Applied to the facts of a state that satisfies the precondition of an outcome, the deleted and
then the added facts of the outcome give the facts of the state that progression leads to. The
variables that the effect does not set are those that are said not to be affected, and they keep
their values. -/
theorem progress_facts_instanceLines {file : String} {t : Task} (hparse : Sas.parse file = .ok t)
    (options : Options) (purpose : Purpose) {outcomes : List Action}
    (hgroup : (name, outcomes) ∈ t.groups) {index : Nat} {outcome : Action}
    (hget : outcomes[index]? = some outcome) {state : State} (hs : state.Full t.domainSizes)
    (hpre : state.entails outcome.precondition = true) :
    ∃ effect next, outcome.effects = [effect] ∧ outcome.progress 0 state = some next ∧
      next.Full t.domainSizes ∧
      next.facts =
        state.facts \ deletedFacts (instanceLines t options purpose) name (outcomeTag index) ∪
          addedFacts (instanceLines t options purpose) name (outcomeTag index) ∧
      ∀ var, (.notAffects name (outcomeTag index) var ∈ instanceLines t options purpose ↔
          options.notAffects = true ∧ var < t.vars.length ∧ effect.value? var = none) ∧
        (effect.value? var = none → next.value? var = state.value? var) := by
  have ht := Sas.wellFormed_of_parse hparse
  obtain ⟨-, hgrounded⟩ := ht.grounded _ _ hgroup outcome (List.mem_of_getElem? hget)
  obtain ⟨effect, -, heffect, hstrips⟩ := hgrounded.effect
  obtain ⟨next, hprogress, hfull, hnext⟩ := hgrounded.progress heffect hs hpre
  have hline : ∀ {ℓ : Line}, ℓ.outcome? = some (name, outcomeTag index) →
      (ℓ ∈ instanceLines t options purpose ↔
        ℓ ∈ effectLines t.vars.length options.notAffects name (outcomeTag index)
          (.derive outcome.precondition effect t.domainSizes)) :=
    mem_instanceLines_outcome ht hgroup hget (by rw [hstrips]; rfl)
  refine ⟨effect, next, heffect, hprogress, hfull, ?_, fun var => ⟨?_, fun hnone => ?_⟩⟩
  · ext ⟨var, value⟩
    have happly : (effect.value? var).or (state.value? var) = some value ↔ _ :=
      Strips.apply_derive hs.toInDomains hpre
    simp only [State.mem_facts, hnext, happly, Set.mem_union, Set.mem_sdiff, addedFacts,
      deletedFacts, Set.mem_ofPred_eq]
    rw [hline rfl, hline rfl, mem_effectLines_add, mem_effectLines_del]
    rfl
  · rw [hline rfl, mem_effectLines_notAffects, mem_affectedVariables_derive, not_not]
  · rw [hnext, hnone, Option.none_or]

/-- The task of the door that sticks, as a file. -/
def stickingDoorFile : String :=
  Text.unlines
    ["begin_variable", "door", "-1", "2", "closed", "open", "end_variable",
      "begin_state", "0", "end_state",
      "begin_goal", "1", "0 1", "end_goal",
      "begin_operator", "push_DETDUP_0", "1", "0 0", "0", "1", "end_operator",
      "begin_operator", "push_DETDUP_1", "0", "1", "0 0 0 1", "1", "end_operator"]

/-- A push that opens the door. -/
def openingPush : Action :=
  Verification.push "push_DETDUP_1" 1 [⟨0, some 0, 1⟩]

theorem mem_groups_door :
    ("push()", [Verification.push "push_DETDUP_0" 0 [], openingPush]) ∈
      Verification.door.groups :=
  .head _

theorem parse_stickingDoorFile : Sas.parse stickingDoorFile = .ok Verification.door := by
  decide +kernel

theorem progress_facts_instanceLines_door :
    (State.ofValues [1]).facts =
      (State.ofValues [0]).facts \
          deletedFacts (instanceLines Verification.door {} .controller) "push()" "e2" ∪
        addedFacts (instanceLines Verification.door {} .controller) "push()" "e2" := by
  have hfull : (State.ofValues [0]).Full Verification.door.domainSizes :=
    (Sas.wellFormed_of_parse parse_stickingDoorFile).initial
  have hget : [Verification.push "push_DETDUP_0" 0 [], openingPush][1]? = some openingPush := rfl
  obtain ⟨effect, next, -, hprogress, -, hfacts, -⟩ :=
    progress_facts_instanceLines parse_stickingDoorFile {} .controller mem_groups_door hget hfull
      (by decide)
  cases hprogress
  exact hfacts

end StrongCyclic.Encoding
