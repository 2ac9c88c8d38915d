import StrongCyclic.Proofs.Encoding.EffectMeaning
import StrongCyclic.Proofs.Verification.FullStates

/-!
When an operator can be applied. An instance carries the precondition of the first outcome only,
while verification holds every outcome to its own. The two agree on an operator just if each of its
outcomes requires no more than what is written.
-/

namespace StrongCyclic.Encoding

open Verification (disagrees_of_verify full_of_reachable verify)

/-- The written preconditions of the operator hold in the state. -/
def Allows (lines : List Line) (name : String) (s : State) : Prop :=
  ∀ var value, .precondition name var value ∈ lines → s.value? var = some value

/-- What the outcomes of the operator require is written. -/
def RequirementsWritten (lines : List Line) (name : String) (outcomes : List Action) : Prop :=
  ∀ outcome ∈ outcomes, ∀ var value, outcome.precondition.value? var = some value →
    .precondition name var value ∈ lines

variable {t : Task} {options : Options} {purpose : Purpose} {name : String}
  {outcomes : List Action} {s : State}

/-! ### States that the written precondition allows -/

/-- The state with the values of a partial state, and with values from elsewhere where it has
none. -/
def completion (other : Nat → Nat) (s : State) : State :=
  ⟨s.slots.mapIdx fun var slot => some (slot.getD (other var))⟩

@[simp] theorem size_completion (other : Nat → Nat) : (completion other s).size = s.size := by
  simp [completion, State.size]

theorem value?_completion (other : Nat → Nat) {var : Nat} (hvar : var < s.size) :
    (completion other s).value? var = some ((s.value? var).getD (other var)) := by
  have hvar : var < s.slots.length := hvar
  simp [completion, State.value?, hvar]

theorem isPartial_completion (other : Nat → Nat) : (completion other s).isPartial = false :=
  State.isPartial_eq_false_iff.mpr fun _ hvar =>
    ⟨_, value?_completion other (size_completion other ▸ hvar)⟩

/-- A partial state all of whose completions entail another one has all its values. -/
theorem entails_of_completions {required : State} (hsize : required.size ≤ s.size)
    (h : ∀ other, (completion other s).entails required = true) : s.entails required = true := by
  rw [State.entails_iff]
  intro var value hvalue
  have hvar : var < s.size := (State.lt_size_of_value? hvalue).trans_le hsize
  have heach : ∀ other : Nat → Nat, (s.value? var).getD (other var) = value := fun other =>
    Option.some.inj <| (value?_completion other hvar).symm.trans <|
      (State.entails_iff _ _).mp (h other) var value hvalue
  cases hs : s.value? var with
  | some held => simpa [hs] using heach fun _ => 0
  | none =>
    have hnext := heach fun _ => value + 1
    rw [hs] at hnext
    exact absurd hnext (Nat.succ_ne_self value)

/-! ### Outcomes and what is written for their operator -/

theorem allows_iff (ht : t.WellFormed) (hgroup : (name, outcomes) ∈ t.groups) {first : Action}
    (hfirst : outcomes.head? = some first) :
    Allows (instanceLines t options purpose) name s ↔ s.entails first.precondition = true := by
  simp [Allows, mem_instanceLines_precondition ht hgroup, hfirst, State.entails_iff]

theorem requirementsWritten_iff (ht : t.WellFormed) (hgroup : (name, outcomes) ∈ t.groups)
    {first : Action} (hfirst : outcomes.head? = some first) :
    RequirementsWritten (instanceLines t options purpose) name outcomes ↔
      ∀ outcome ∈ outcomes, first.precondition.entails outcome.precondition = true := by
  simp [RequirementsWritten, mem_instanceLines_precondition ht hgroup, hfirst, State.entails_iff]

/-- The states that the written precondition allows are states in which all outcomes can be applied,
just if all that the outcomes require is written. -/
theorem forall_allows_iff (ht : t.WellFormed) (hgroup : (name, outcomes) ∈ t.groups) :
    (∀ s : State, s.size = t.vars.length → s.isPartial = false →
      Allows (instanceLines t options purpose) name s →
      ∀ outcome ∈ outcomes, ∃ next, outcome.progress 0 s = some next) ↔
    RequirementsWritten (instanceLines t options purpose) name outcomes := by
  obtain ⟨first, rest, hcons⟩ := List.exists_cons_of_ne_nil (ht.nonempty _ _ hgroup)
  have hfirst : outcomes.head? = some first := by rw [hcons, List.head?_cons]
  have hgrounded := fun outcome ho => (ht.grounded _ _ hgroup outcome ho).2
  have hsizes := t.length_domainSizes
  rw [requirementsWritten_iff ht hgroup hfirst]
  simp only [allows_iff ht hgroup hfirst]
  constructor
  · intro hall outcome ho
    have hsize := (hgrounded first (List.mem_of_head? hfirst)).precondition.size_eq
    refine entails_of_completions
      (by rw [(hgrounded outcome ho).precondition.size_eq, hsize]) fun other => ?_
    have hcompletion : (completion other first.precondition).size = t.domainSizes.length := by
      rw [size_completion, hsize]
    have hentails : (completion other first.precondition).entails first.precondition = true := by
      rw [State.entails_iff]
      intro var value hvalue
      rw [value?_completion other (State.lt_size_of_value? hvalue), hvalue, Option.getD_some]
    exact ((hgrounded outcome ho).exists_progress_iff hcompletion (isPartial_completion other)).mp
      (hall _ (hcompletion.trans hsizes) (isPartial_completion other) hentails outcome ho)
  · intro hwritten s hsize hs hallows outcome ho
    exact ((hgrounded outcome ho).exists_progress_iff (hsize.trans hsizes.symm) hs).mpr
      (State.entails_trans hallows (hwritten outcome ho))

/-! ### Verification -/

/-- An outcome that cannot be applied is reported in a full state in which it requires what the state
does not have. -/
theorem exists_outcome_of_notApplicable (ht : t.WellFormed) {c : Controller} {id : Nat}
    (h : verify c t = .error (.notApplicable name s id)) :
    s.Full t.domainSizes ∧ ∃ outcomes outcome, (name, outcomes) ∈ t.groups ∧ outcome ∈ outcomes ∧
      s.entails outcome.precondition = false := by
  cases disagrees_of_verify h with
  | pair hreach hfault =>
    cases hfault with
    | outcome hp hsome hget hfault =>
      cases hfault with
      | notApplicable hnone =>
        have hfull := full_of_reachable ht hreach
        have hgroup := ht.mem_groups_iff.mpr hsome
        have hmem := List.mem_of_getElem? hget
        obtain ⟨-, hgrounded⟩ := ht.grounded _ _ hgroup _ hmem
        refine ⟨hfull, _, _, hgroup, hmem, Bool.eq_false_iff.mpr fun hentails => ?_⟩
        obtain ⟨next, hnext⟩ :=
          (hgrounded.exists_progress_iff hfull.size_eq hfull.isPartial).mpr hentails
        exact absurd (hnone.symm.trans hnext) (by simp)

/-- Instance and verification agree on when an operator can be applied just if all that its outcomes
require is written. Then verification reports that an outcome of it cannot be applied only in states
that the written precondition rules out. -/
theorem allows_applicable_iff {file : String} (hparse : Sas.parse file = .ok t)
    (options : Options) (purpose : Purpose) (hgroup : (name, outcomes) ∈ t.groups) :
    ((∀ s : State, s.size = t.vars.length → s.isPartial = false →
        Allows (instanceLines t options purpose) name s →
        ∀ outcome ∈ outcomes, ∃ next, outcome.progress 0 s = some next) ↔
      RequirementsWritten (instanceLines t options purpose) name outcomes) ∧
    ∀ (c : Controller) (s : State) (id : Nat),
      verify c t = .error (.notApplicable name s id) →
      RequirementsWritten (instanceLines t options purpose) name outcomes →
      ¬ Allows (instanceLines t options purpose) name s := by
  have ht := Sas.wellFormed_of_parse hparse
  refine ⟨forall_allows_iff ht hgroup, fun c s id hfault hwritten hallows => ?_⟩
  obtain ⟨hfull, outcomes', outcome, hgroup', ho, hentails⟩ :=
    exists_outcome_of_notApplicable ht hfault
  obtain rfl := ht.outcomes_unique hgroup' hgroup
  have hholds : s.entails outcome.precondition = true := (State.entails_iff _ _).mpr
    fun var value hvalue => hallows var value (hwritten outcome ho var value hvalue)
  exact absurd (hholds.symm.trans hentails) (by simp)

theorem allows_applicable_iff_door :
    (∃ next, (Verification.push "push_DETDUP_0" 0 []).progress 0 (.ofValues [0]) = some next) ∧
      ∃ next, openingPush.progress 0 (.ofValues [0]) = some next := by
  have ht := Sas.wellFormed_of_parse parse_stickingDoorFile
  obtain ⟨happlicable, -⟩ :=
    allows_applicable_iff parse_stickingDoorFile {} .controller mem_groups_door
  have hwritten : RequirementsWritten (instanceLines Verification.door {} .controller) "push()"
      [Verification.push "push_DETDUP_0" 0 [], openingPush] :=
    (requirementsWritten_iff ht mem_groups_door rfl).mpr (by decide)
  have hallows : Allows (instanceLines Verification.door {} .controller) "push()" (.ofValues [0]) :=
    (allows_iff ht mem_groups_door rfl).mpr (by decide)
  have hprogress := happlicable.mpr hwritten (.ofValues [0]) rfl rfl hallows
  exact ⟨hprogress _ (.head _), hprogress _ (.tail _ (.head _))⟩

/-! ### A door that is pushed open or left as it is -/

/-- An outcome of pushing a door, in any state of the door. -/
def loosePush (name : String) (outcome : Nat) (changes : List ValueChange) : Action :=
  .ofChanges ⟨name, "push", some outcome, []⟩ (.undefined 1) changes 1 [2]

/-- The outcomes of pushing the loose door. -/
def loosePushes : List Action :=
  [loosePush "push_DETDUP_0" 0 [], loosePush "push_DETDUP_1" 1 [⟨0, some 0, 1⟩]]

/-- An open door. A push may leave it as it is, and may open it if it was closed; the second outcome
requires the door to be closed, and the first one, which is the one that is written, does not. -/
def looseDoor : Task :=
  .ofActions [⟨"door", ["closed", "open"]⟩] (.ofValues [1]) (.ofPairs 1 [(0, 1)]) []
    loosePushes

/-- The task of the loose door, as a file. -/
def looseDoorFile : String :=
  Text.unlines
    ["begin_variable", "door", "-1", "2", "closed", "open", "end_variable",
      "begin_state", "1", "end_state",
      "begin_goal", "1", "0 1", "end_goal",
      "begin_operator", "push_DETDUP_0", "0", "0", "1", "end_operator",
      "begin_operator", "push_DETDUP_1", "0", "1", "0 0 0 1", "1", "end_operator"]

/-- The controller that pushes the open door once more. -/
def pushingOpenDoor : Controller :=
  { Verification.pushing with states := [(0, .ofValues [1]), (1, .ofValues [1])] }

theorem parse_looseDoorFile : Sas.parse looseDoorFile = .ok looseDoor := by
  decide +kernel

theorem verify_pushingOpenDoor :
    verify pushingOpenDoor looseDoor = .error (.notApplicable "push()" (.ofValues [1]) 0) := by
  decide +kernel

/-- No precondition is written for pushing the loose door. -/
theorem allows_looseDoor :
    Allows (instanceLines looseDoor options purpose) "push()" (.ofValues [1]) :=
  have hgroup : ("push()", loosePushes) ∈ looseDoor.groups := .head _
  (allows_iff (Sas.wellFormed_of_parse parse_looseDoorFile) hgroup rfl).mpr (by decide)

/-- The written precondition may hold in a state in which some outcome cannot be applied, and there
verification fails. -/
theorem not_forall_allows_applicable :
    (¬ ∀ (file : String) (t : Task) (options : Options) (purpose : Purpose) (name : String)
        (outcomes : List Action) (s : State), Sas.parse file = .ok t →
        (name, outcomes) ∈ t.groups → s.size = t.vars.length → s.isPartial = false →
        Allows (instanceLines t options purpose) name s →
        ∀ outcome ∈ outcomes, ∃ next, outcome.progress 0 s = some next) ∧
    ¬ ∀ (file : String) (t : Task) (options : Options) (purpose : Purpose) (c : Controller)
        (name : String) (s : State) (id : Nat), Sas.parse file = .ok t →
        verify c t = .error (.notApplicable name s id) →
        ¬ Allows (instanceLines t options purpose) name s := by
  constructor
  · intro hall
    obtain ⟨next, hnext⟩ := hall looseDoorFile looseDoor {} .controller "push()" loosePushes
      (.ofValues [1]) parse_looseDoorFile (.head _) rfl rfl allows_looseDoor
      (loosePush "push_DETDUP_1" 1 [⟨0, some 0, 1⟩]) (by decide)
    have hnone : (loosePush "push_DETDUP_1" 1 [⟨0, some 0, 1⟩]).progress 0 (.ofValues [1]) = none :=
      by decide
    exact absurd (hnone.symm.trans hnext) (by simp)
  · intro hall
    exact hall looseDoorFile _ {} .controller pushingOpenDoor _ _ _ parse_looseDoorFile
      verify_pushingOpenDoor allows_looseDoor

end StrongCyclic.Encoding
