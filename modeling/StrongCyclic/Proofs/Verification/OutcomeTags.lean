import StrongCyclic.Proofs.Encoding.OperatorLines
import StrongCyclic.Proofs.Planning.Grouping
import StrongCyclic.Proofs.Sas.ListedFacts
import StrongCyclic.Proofs.Verification.StrongCyclicity
import StrongCyclic.Proofs.Verification.Termination

/-!
What the tag of an outcome stands for. An instance says of the tag `e1` what the first outcome of an
operator does, and verification follows the transition `e1` for the same outcome, since both count the
outcomes in the groups of the task. The groups depend on the order of the actions only where two
outcomes of an operator have the same number.
-/

namespace StrongCyclic

namespace Task

/-- The tag stands for the outcome in the operator with the key. -/
def Tagged (t : Task) (key tag : String) (outcome : Action) : Prop :=
  ∃ outcomes index, t.outcomes? key = some outcomes ∧ outcomes[index]? = some outcome ∧
    tag = outcomeTag index

theorem Tagged.unique {t : Task} {key tag : String} {outcome other : Action}
    (h : t.Tagged key tag outcome) (h' : t.Tagged key tag other) : outcome = other := by
  obtain ⟨outcomes, index, hfound, hget, rfl⟩ := h
  obtain ⟨_, index', hfound', hget', htag⟩ := h'
  cases hfound.symm.trans hfound'
  rw [outcomeTag_injective htag] at hget
  exact Option.some.inj (hget.symm.trans hget')

theorem tagged_congr {t t' : Task} (h : ∀ key, t'.outcomes? key = t.outcomes? key)
    {key tag : String} {outcome : Action} :
    t'.Tagged key tag outcome ↔ t.Tagged key tag outcome := by
  simp only [Tagged, h]

theorem maxOutcomes_of_perm {t t' : Task} (h : t'.groups.Perm t.groups) :
    t'.maxOutcomes = t.maxOutcomes := by
  have : RightCommutative fun (most : Nat) (group : String × List Action) =>
      max most group.2.length := ⟨fun _ _ _ => Nat.max_right_comm _ _ _⟩
  exact h.foldl_eq 1

end Task

/-! ### The encoder -/

namespace Encoding

variable {numVariables : Nat} {frame : Bool} {name tag : String} {ℓ : Line} {t t' : Task}
  {options : Options} {purpose : Purpose}

theorem mem_operatorLines_tagged {first : Action} {outcomes : List Action}
    (h : ℓ.outcome? = some (name, tag)) :
    ℓ ∈ operatorLines numVariables frame name first outcomes ↔
      ∃ index outcome, outcomes[index]? = some outcome ∧ tag = outcomeTag index ∧
        ∃ s, outcome.strips.head? = some s ∧ ℓ ∈ effectLines numVariables frame name tag s := by
  simp only [operatorLines, List.mem_cons, List.mem_append, List.mem_map, List.mem_flatten,
    List.mem_mapIdx]
  constructor
  · rintro ((rfl | rfl | ⟨pair, -, rfl⟩) | rfl | ⟨lines, ⟨index, hi, rfl⟩, hmem⟩)
    · cases h
    · cases h
    · cases h
    · cases h
    · rcases mem_outcomeLines.mp hmem with rfl | ⟨s, hs, hmem⟩
      · cases h
      · have htag := (outcome?_of_mem_effectLines hmem).symm.trans h
        obtain rfl : outcomeTag index = tag := by simpa using htag
        exact ⟨index, _, List.getElem?_eq_getElem hi, rfl, s, hs, hmem⟩
  · rintro ⟨index, outcome, hget, rfl, s, hs, hmem⟩
    obtain ⟨hi, rfl⟩ := List.getElem?_eq_some_iff.mp hget
    exact .inr (.inr ⟨_, ⟨index, hi, rfl⟩, mem_outcomeLines.mpr (.inr ⟨s, hs, hmem⟩)⟩)

theorem mem_operatorLines_actionEffect {first : Action} {outcomes : List Action} :
    .actionEffect name tag ∈ operatorLines numVariables frame name first outcomes ↔
      ∃ (index : Nat) (outcome : Action), outcomes[index]? = some outcome ∧
        tag = outcomeTag index := by
  simp only [operatorLines, List.mem_cons, List.mem_append, List.mem_map, List.mem_flatten,
    List.mem_mapIdx, reduceCtorEq, and_false, exists_false, false_or]
  constructor
  · rintro ⟨lines, ⟨index, hi, rfl⟩, hmem⟩
    rcases mem_outcomeLines.mp hmem with heq | ⟨s, -, hmem⟩
    · cases heq
      exact ⟨index, _, List.getElem?_eq_getElem hi, rfl⟩
    · cases outcome?_of_mem_effectLines hmem
  · rintro ⟨index, outcome, hget, rfl⟩
    obtain ⟨hi, -⟩ := List.getElem?_eq_some_iff.mp hget
    exact ⟨_, ⟨index, hi, rfl⟩, mem_outcomeLines.mpr (.inl rfl)⟩

theorem mem_instanceLines_outcomes (ht : (t.groups.map Prod.fst).Nodup)
    (h : ℓ.operator? = some name) :
    ℓ ∈ instanceLines t options purpose ↔ ∃ first rest, t.outcomes? name = some (first :: rest) ∧
      ℓ ∈ operatorLines t.vars.length options.notAffects name first (first :: rest) := by
  simp only [mem_instanceLines h, Keyed.mem_iff_lookup ht, Task.outcomes?]

/-- The tags that an instance announces for an operator are those that stand for an outcome. -/
theorem mem_instanceLines_actionEffect (ht : (t.groups.map Prod.fst).Nodup) :
    .actionEffect name tag ∈ instanceLines t options purpose ↔
      ∃ outcome, t.Tagged name tag outcome := by
  rw [mem_instanceLines_outcomes ht rfl]
  simp only [mem_operatorLines_actionEffect, Task.Tagged]
  constructor
  · rintro ⟨first, rest, hfound, index, outcome, hget, htag⟩
    exact ⟨outcome, _, index, hfound, hget, htag⟩
  · rintro ⟨outcome, outcomes, index, hfound, hget, htag⟩
    obtain ⟨first, rest, rfl⟩ := List.exists_cons_of_ne_nil (List.ne_nil_of_mem
      (List.mem_of_getElem? hget))
    exact ⟨first, rest, hfound, index, outcome, hget, htag⟩

/-- What an instance says of a tag comes from the outcome that the tag stands for. -/
theorem mem_instanceLines_tagged (ht : (t.groups.map Prod.fst).Nodup)
    (h : ℓ.outcome? = some (name, tag)) :
    ℓ ∈ instanceLines t options purpose ↔ ∃ outcome s, t.Tagged name tag outcome ∧
      outcome.strips.head? = some s ∧
        ℓ ∈ effectLines t.vars.length options.notAffects name tag s := by
  simp only [mem_instanceLines_outcomes ht (Line.operator?_of_outcome? h),
    mem_operatorLines_tagged h, Task.Tagged]
  constructor
  · rintro ⟨first, rest, hfound, index, outcome, hget, htag, s, hs, hmem⟩
    exact ⟨outcome, s, ⟨_, index, hfound, hget, htag⟩, hs, hmem⟩
  · rintro ⟨outcome, s, ⟨outcomes, index, hfound, hget, htag⟩, hs, hmem⟩
    obtain ⟨first, rest, rfl⟩ := List.exists_cons_of_ne_nil (List.ne_nil_of_mem
      (List.mem_of_getElem? hget))
    exact ⟨first, rest, hfound, index, outcome, hget, htag, s, hs, hmem⟩

/-! ### Groups in another order -/

theorem mem_operatorsFrom_iff (announced : List String) (groups : List (String × List Action)) :
    ℓ ∈ operatorsFrom numVariables frame announced groups ↔
      ∃ name first rest, (name, first :: rest) ∈ groups ∧
        (ℓ ∈ operatorLines numVariables frame name first (first :: rest) ∨
          ℓ = .actionType first.header.stem ∧ first.header.stem ∉ announced) := by
  induction groups generalizing announced with
  | nil => simp [operatorsFrom]
  | cons group groups ih =>
    obtain ⟨key, outcomes⟩ := group
    cases outcomes with
    | nil => simp [operatorsFrom, ih]
    | cons first rest =>
      -- a type that stands further behind may be announced already with the first operator
      simp only [operatorsFrom, List.mem_append, ih, List.mem_cons, Prod.mk.injEq,
        List.cons.injEq, not_or]
      constructor
      · rintro ((h | h) | ⟨name, other, others, hmem, h⟩)
        · split at h
          · cases h
          · next hnew => exact ⟨key, first, rest, .inl ⟨rfl, rfl, rfl⟩,
              .inr ⟨List.mem_singleton.mp h, hnew⟩⟩
        · exact ⟨key, first, rest, .inl ⟨rfl, rfl, rfl⟩, .inl h⟩
        · exact ⟨name, other, others, .inr hmem, h.imp_right fun h => ⟨h.1, h.2.2⟩⟩
      · rintro ⟨name, other, others, ⟨rfl, rfl, rfl⟩ | hmem, h | ⟨rfl, hnew⟩⟩
        · exact .inl (.inr h)
        · exact .inl (.inl (by simp [hnew]))
        · exact .inr ⟨name, other, others, hmem, .inl h⟩
        · by_cases heq : other.header.stem = first.header.stem
          · exact .inl (.inl (by simp [← heq, hnew]))
          · exact .inr ⟨name, other, others, hmem, .inr ⟨rfl, heq, hnew⟩⟩

/-- The order of the operators does not matter for what an instance says. -/
theorem mem_instanceLines_of_perm {groups : List (String × List Action)}
    {actions : List (String × Action)} (h : groups.Perm t.groups) :
    ℓ ∈ instanceLines { t with groups, actions } options purpose ↔
      ℓ ∈ instanceLines t options purpose := by
  have hactions : ℓ ∈ actionLines { t with groups, actions } options ↔
      ℓ ∈ actionLines t options := by
    have hmost : Task.maxOutcomes { t with groups, actions } = t.maxOutcomes :=
      Task.maxOutcomes_of_perm h
    simp only [actionLines, List.mem_append, mem_operatorsFrom_iff, hmost, h.mem_iff]
  exact List.mem_append.trans ((or_congr_right hactions).trans List.mem_append.symm)

end Encoding

/-! ### The verifier -/

namespace Verification

variable {c : Controller} {t t' : Task}

/-- A step follows the transition with the tag of an outcome for the outcome that the tag stands
for. -/
theorem step_iff_tagged {node next : SpaceNode} :
    Step c t node next ↔ ∃ action tag outcome, Performs c node action ∧
      t.Tagged action tag outcome ∧ outcome.progress 0 node.state = some next.state ∧
        c.successor? node.controller tag = some next.controller := by
  constructor
  · rintro ⟨action, outcomes, index, outcome, hperforms, hfound, hget, hleads⟩
    exact ⟨action, _, outcome, hperforms, ⟨outcomes, index, hfound, hget, rfl⟩, hleads.progress,
      hleads.successor⟩
  · rintro ⟨action, _, outcome, hperforms, ⟨outcomes, index, hfound, hget, rfl⟩, hprogress, hnext⟩
    exact ⟨action, outcomes, index, outcome, hperforms, hfound, hget, hprogress, hnext⟩

theorem explore_congr (h : ∀ key, t'.outcomes? key = t.outcomes? key) (rounds : Nat)
    (e : Exploration) : explore c t' rounds e = explore c t rounds e := by
  have hexpand : expand c t' = expand c t := by
    funext id node e
    simp only [expand, h]
  induction rounds generalizing e with
  | zero => rfl
  | succ rounds ih => simp only [explore, ih, hexpand]

/-- Verification sees of a task the initial state and the outcomes of each operator, and the bound on
its rounds is the same for operators in another order. -/
theorem verify_congr (hinitial : t'.initial = t.initial)
    (houtcomes : ∀ key, t'.outcomes? key = t.outcomes? key) (hgroups : t'.groups.Perm t.groups) :
    verify c t' = verify c t := by
  have hvalues (var : Nat) : (valuesOf t' var).length = (valuesOf t var).length := by
    rw [← ncard_mentions, ← ncard_mentions]
    simp only [Mentions, hinitial, hgroups.mem_iff]
  have hbound : pairBound c t' = pairBound c t := by
    simp only [pairBound, hinitial, hvalues]
  have hspace : solutionSpace c t' = solutionSpace c t := by
    simp only [solutionSpace, hinitial, hbound, explore_congr houtcomes]
  rw [verify, verify, hspace]

end Verification

/-! ### Encoder and verifier -/

namespace Task

open Encoding Verification

/-- Each tag of an operator stands for one outcome. Just these tags are announced in an instance, what
an instance says of a tag is said of this outcome, and a step along the transition with the tag is a
step of this outcome. -/
structure TagsDenote (t : Task) : Prop where
  unique : ∀ key tag outcome other, t.Tagged key tag outcome → t.Tagged key tag other →
    outcome = other
  announced : ∀ options purpose key tag,
    .actionEffect key tag ∈ instanceLines t options purpose ↔ ∃ outcome, t.Tagged key tag outcome
  encoded : ∀ options purpose key tag (ℓ : Line), ℓ.outcome? = some (key, tag) →
    (ℓ ∈ instanceLines t options purpose ↔ ∃ outcome s, t.Tagged key tag outcome ∧
      outcome.strips.head? = some s ∧ ℓ ∈ effectLines t.vars.length options.notAffects key tag s)
  followed : ∀ c node next, Step c t node next ↔ ∃ action tag outcome, Performs c node action ∧
    t.Tagged action tag outcome ∧ outcome.progress 0 node.state = some next.state ∧
      c.successor? node.controller tag = some next.controller

theorem tagsDenote {t : Task} (h : (t.groups.map Prod.fst).Nodup) : t.TagsDenote where
  unique _ _ _ _ := Tagged.unique
  announced _ _ _ _ := mem_instanceLines_actionEffect h
  encoded _ _ _ _ _ := mem_instanceLines_tagged h
  followed _ _ _ := step_iff_tagged

/-- The tasks have the same outcomes of each operator under the same tags. Their instances say the
same, and every controller has the same verdict on them. -/
structure SameOutcomes (t t' : Task) : Prop where
  outcomes : ∀ key, t'.outcomes? key = t.outcomes? key
  tagged : ∀ key tag outcome, t'.Tagged key tag outcome ↔ t.Tagged key tag outcome
  encoded : ∀ options purpose ℓ,
    ℓ ∈ instanceLines t' options purpose ↔ ℓ ∈ instanceLines t options purpose
  verified : ∀ c, verify c t' = verify c t

section OfActions

variable (vars : List Variable) (initial goal : State) (mutexes : List State)

theorem sameOutcomes_of_perm {actions actions' : List Action}
    (h : RanksDiffer (groupByOperator actions)) (hperm : actions'.Perm actions) :
    SameOutcomes (ofActions vars initial goal mutexes actions)
      (ofActions vars initial goal mutexes actions') := by
  have hgroups := groupByOperator_perm h hperm
  have houtcomes (key : String) : (ofActions vars initial goal mutexes actions').outcomes? key =
      (ofActions vars initial goal mutexes actions).outcomes? key :=
    lookup_groupByOperator_of_perm h hperm key
  exact
    { outcomes := houtcomes
      tagged := fun _ _ _ => tagged_congr houtcomes
      encoded := fun _ _ _ => mem_instanceLines_of_perm
        (t := ofActions vars initial goal mutexes actions) hgroups
      verified := fun _ => verify_congr rfl houtcomes hgroups }

/-- No action is lost when a task is made, whatever the list of its actions: the groups of the
operators are the list again, sorted by operator, outcome number and place in the list, and the last
action of each key is found. Encoder and verifier take a tag for the same outcome. If the outcomes of
each operator have different numbers, the list may come in any order; and if all keys are different,
there are as many actions as the groups have outcomes. -/
theorem ofActions_groups_canonical (actions : List Action) :
    let t := ofActions vars initial goal mutexes actions
    Groups actions t.groups ∧
    (∀ key, t.action? key = (actions.filter (·.key = key)).getLast?) ∧
    t.TagsDenote ∧
    (RanksDiffer t.groups → ∀ actions', actions'.Perm actions →
      SameOutcomes t (ofActions vars initial goal mutexes actions')) ∧
    ((actions.map Action.key).Nodup → t.actions.length = (t.groups.map (·.2.length)).sum) := by
  have hgroups := groups_groupByOperator actions
  refine ⟨hgroups, lookup_indexByKey actions, tagsDenote (nodup_keys_groupByOperator actions),
    fun h actions' => sameOutcomes_of_perm vars initial goal mutexes h, fun h => ?_⟩
  exact (length_indexByKey h).trans hgroups.sum_length.symm

end OfActions

/-- The sticking door, with the outcomes of the push in either order. -/
theorem ofActions_groups_canonical_door :
    SameOutcomes door (openDoor [push "push_DETDUP_1" 1 [⟨0, some 0, 1⟩],
      push "push_DETDUP_0" 0 []]) ∧
    door.actions.length = 2 ∧ (door.groups.map (·.2.length)).sum = 2 := by
  obtain ⟨-, -, -, hperm, hlength⟩ := ofActions_groups_canonical [⟨"door", ["closed", "open"]⟩]
    (.ofValues [0]) (.ofPairs 1 [(0, 1)]) []
    [push "push_DETDUP_0" 0 [], push "push_DETDUP_1" 1 [⟨0, some 0, 1⟩]]
  have hlength : door.actions.length = (door.groups.map (·.2.length)).sum := hlength (by decide)
  exact ⟨hperm (by decide) _ (List.Perm.swap _ _ _), rfl, hlength ▸ rfl⟩

/-- An operator without an outcome number next to outcome zero: the first one listed is `e1`. -/
example :
    let plain : Action := .ofChanges ⟨"push", "push", none, []⟩ (.ofPairs 1 [(0, 0)]) [] 1 [2]
    let zero : Action := push "push_DETDUP_0" 0 [⟨0, some 0, 1⟩]
    (openDoor [plain, zero]).outcomes? "push()" = some [plain, zero] ∧
      (openDoor [zero, plain]).outcomes? "push()" = some [zero, plain] := by
  decide +kernel

end Task

namespace Sas

/-- Two files that differ in the order of their operators describe tasks with the same outcomes. -/
theorem sameOutcomes_of_operators_perm {text text' : String} {t t' : Task}
    {blocks blocks' : List Block} (h : parse text = .ok t) (h' : parse text' = .ok t')
    (hblocks : Splits (fileLines text) blocks) (hblocks' : Splits (fileLines text') blocks')
    (hvars : variablesOf blocks' = variablesOf blocks)
    (hstate : (stateOf? blocks').map Prod.snd = (stateOf? blocks).map Prod.snd)
    (hgoal : (goalOf blocks').map Fact.pair = (goalOf blocks).map Fact.pair)
    (hmutexes : (mutexesOf blocks').map (·.map Fact.pair) =
      (mutexesOf blocks).map (·.map Fact.pair))
    (hoperators : ((operatorsOf blocks').map (Operator.described (sizesOf blocks))).Perm
      ((operatorsOf blocks).map (Operator.described (sizesOf blocks))))
    (hranks : Task.RanksDiffer t.groups) : t.SameOutcomes t' := by
  obtain ⟨⟨_, values, hsplits, hfits, rfl⟩, hno⟩ := parse_eq_ok_iff.mp h
  obtain ⟨⟨_, values', hsplits', hfits', rfl⟩, hno'⟩ := parse_eq_ok_iff.mp h'
  obtain rfl := hblocks.unique hsplits hno
  obtain rfl := hblocks'.unique hsplits' hno'
  have hsizes : sizesOf blocks' = sizesOf blocks := by rw [sizesOf, sizesOf, hvars]
  obtain rfl : values' = values :=
    Option.some.inj (hfits'.initial.symm.trans (hstate.trans hfits.initial))
  have hmutexes : (mutexesOf blocks').map (factState (sizesOf blocks)) =
      (mutexesOf blocks).map (factState (sizesOf blocks)) := by
    have hstates := congrArg (List.map (State.ofPairs (sizesOf blocks).length)) hmutexes
    rwa [List.map_map, List.map_map] at hstates
  have htask : described blocks' values' = Task.ofActions (variablesOf blocks)
      (State.ofValues values') (factState (sizesOf blocks) (goalOf blocks))
      ((mutexesOf blocks).map (factState (sizesOf blocks)))
      ((operatorsOf blocks').map (Operator.described (sizesOf blocks))) := by
    rw [described, hsizes, hvars, hmutexes, factState, factState, hgoal]
  rw [htask]
  exact Task.sameOutcomes_of_perm _ _ _ _ hranks hoperators

end Sas

end StrongCyclic
