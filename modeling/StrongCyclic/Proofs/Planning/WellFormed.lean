import StrongCyclic.Planning.Task
import StrongCyclic.Proofs.Collection.Grouped

/-!
Well-formed tasks. States keep to the domains of the variables, each operator has one list of
outcomes, and each outcome has one effect, whose add and delete list is derived from it.
-/

namespace StrongCyclic

variable {sizes : List Nat}

namespace State

/-- The state has a slot for each variable, and its values lie in the domains, which have the given
sizes. -/
structure InDomains (sizes : List Nat) (s : State) : Prop where
  size_eq : s.size = sizes.length
  value_lt : ∀ var value, s.value? var = some value → value < sizes.getD var 0

/-- The state defines every variable by a value of its domain. -/
structure Full (sizes : List Nat) (s : State) : Prop extends InDomains sizes s where
  defined : ∀ var < sizes.length, ∃ value, s.value? var = some value

theorem inDomains_undefined : (undefined sizes.length).InDomains sizes where
  size_eq := by simp [undefined, size]
  value_lt := by simp

theorem InDomains.set {s : State} (h : s.InDomains sizes) {var : Nat} {slot : Option Nat}
    (hslot : ∀ value, slot = some value → value < sizes.getD var 0) :
    (s.set var slot).InDomains sizes where
  size_eq := by rw [size_set, h.size_eq]
  value_lt v value hvalue := by
    rw [value?_set] at hvalue
    split at hvalue
    · next hv => exact hv.1 ▸ hslot value hvalue
    · exact h.value_lt v value hvalue

theorem InDomains.setAll {pairs : List (Nat × Nat)}
    (hpairs : ∀ pair ∈ pairs, pair.2 < sizes.getD pair.1 0) {s : State} (h : s.InDomains sizes) :
    (s.setAll pairs).InDomains sizes := by
  induction pairs generalizing s with
  | nil => exact h
  | cons pair pairs ih =>
    have hfirst : (s.set pair.1 (some pair.2)).InDomains sizes :=
      h.set fun value hvalue => Option.some.inj hvalue ▸ hpairs pair List.mem_cons_self
    exact ih (fun p hp => hpairs p (List.mem_cons_of_mem _ hp)) hfirst

theorem inDomains_ofPairs {pairs : List (Nat × Nat)}
    (hpairs : ∀ pair ∈ pairs, pair.2 < sizes.getD pair.1 0) :
    (ofPairs sizes.length pairs).InDomains sizes :=
  inDomains_undefined.setAll hpairs

/-- What the second state defines takes the place of what a full state has there, and leaves it
full. -/
theorem Full.update {s t : State} (hs : s.Full sizes) (ht : t.InDomains sizes) :
    (s.update t).Full sizes where
  size_eq := by rw [size_update, hs.size_eq]
  value_lt var value hvalue := by
    rw [value?_update] at hvalue
    split at hvalue
    · rcases Option.or_eq_some_iff.mp hvalue with h | ⟨-, h⟩
      · exact ht.value_lt var value h
      · exact hs.value_lt var value h
    · cases hvalue
  defined var hvar := by
    obtain ⟨value, hvalue⟩ := hs.defined var hvar
    rw [value?_update, hs.size_eq, if_pos hvar, hvalue]
    cases t.value? var <;> simp

end State

/-- The action has one effect, precondition and effect keep to the domains, and the add and delete
list are those of the effect. -/
structure Action.Grounded (sizes : List Nat) (a : Action) : Prop where
  precondition : a.precondition.InDomains sizes
  effect : ∃ effect : State, effect.InDomains sizes ∧ a.effects = [effect] ∧
    a.strips = [Strips.derive a.precondition effect sizes]

/-- The states of the task keep to the domains, the initial state is full, and the operators have
different keys and at least one outcome each. -/
structure Task.WellFormed (t : Task) : Prop where
  initial : t.initial.Full t.domainSizes
  goal : t.goal.InDomains t.domainSizes
  distinct : (t.groups.map Prod.fst).Nodup
  nonempty : ∀ key outcomes, (key, outcomes) ∈ t.groups → outcomes ≠ []
  grounded : ∀ key outcomes, (key, outcomes) ∈ t.groups → ∀ outcome ∈ outcomes,
    outcome.groupKey = key ∧ outcome.Grounded t.domainSizes

@[simp] theorem Task.length_domainSizes (t : Task) : t.domainSizes.length = t.vars.length := by
  simp [domainSizes]

/-! ### Actions from changes -/

/-- The values of the change lie in the domain of its variable. -/
def ValueChange.InDomains (sizes : List Nat) (change : ValueChange) : Prop :=
  change.next < sizes.getD change.var 0 ∧
    ∀ prev, change.prev = some prev → prev < sizes.getD change.var 0

namespace Action

theorem inDomains_liftPrevious {changes : List ValueChange}
    (hchanges : ∀ change ∈ changes, change.InDomains sizes) {precondition : State}
    (h : precondition.InDomains sizes) : (liftPrevious precondition changes).InDomains sizes := by
  induction changes generalizing precondition with
  | nil => exact h
  | cons change changes ih =>
    refine ih (fun c hc => hchanges c (List.mem_cons_of_mem _ hc)) ?_
    dsimp only
    split
    · exact h.set (hchanges change List.mem_cons_self).2
    · exact h

theorem inDomains_effectOf {changes : List ValueChange}
    (hchanges : ∀ change ∈ changes, change.InDomains sizes) :
    (effectOf sizes.length changes).InDomains sizes := by
  refine State.inDomains_ofPairs fun pair hpair => ?_
  obtain ⟨change, hchange, rfl⟩ := List.mem_map.mp hpair
  exact (hchanges change hchange).1

theorem grounded_ofChanges {header : Header} {precondition : State} {changes : List ValueChange}
    {cost : Nat} (h : precondition.InDomains sizes)
    (hchanges : ∀ change ∈ changes, change.InDomains sizes) :
    (ofChanges header precondition changes cost sizes).Grounded sizes where
  precondition := inDomains_liftPrevious hchanges h
  effect := ⟨effectOf precondition.size changes, h.size_eq ▸ inDomains_effectOf hchanges, rfl, rfl⟩

end Action

/-! ### Operators from actions -/

namespace Task

theorem nodup_keys_collectByOperator (actions : List Action) :
    ((collectByOperator actions).map Prod.fst).Nodup := by
  suffices h : ∀ index : List (String × List Action), (index.map Prod.fst).Nodup →
      ((actions.foldl (fun index a => Keyed.push a.groupKey a index) index).map Prod.fst).Nodup from
    h [] (by simp)
  induction actions with
  | nil => exact fun index h => h
  | cons a actions ih => exact fun index h => ih _ (Keyed.nodup_keys_alter _ _ h)

/-- The outcomes that are collected under a key are actions with that key. -/
theorem mem_collectByOperator {actions : List Action} {key : String} {outcomes : List Action}
    (h : (key, outcomes) ∈ collectByOperator actions) :
    outcomes ≠ [] ∧ ∀ outcome ∈ outcomes, outcome ∈ actions ∧ outcome.groupKey = key := by
  suffices hfold : ∀ (rest : List Action) (index : List (String × List Action)),
      (∀ a ∈ rest, a ∈ actions) →
      (∀ k os, (k, os) ∈ index → os ≠ [] ∧ ∀ o ∈ os, o ∈ actions ∧ o.groupKey = k) →
      ∀ k os, (k, os) ∈ rest.foldl (fun index a => Keyed.push a.groupKey a index) index →
        os ≠ [] ∧ ∀ o ∈ os, o ∈ actions ∧ o.groupKey = k from
    hfold actions [] (fun _ ha => ha) (by simp) key outcomes h
  intro rest
  induction rest with
  | nil => exact fun index _ hindex => hindex
  | cons a rest ih =>
    intro index hrest hindex
    refine ih _ (fun b hb => hrest b (List.mem_cons_of_mem _ hb)) fun k os hmem => ?_
    rcases Keyed.mem_push hmem with hold | ⟨rfl, old, rfl, hold⟩
    · exact hindex k os hold
    · refine ⟨by simp, fun o ho => ?_⟩
      rcases List.mem_append.mp ho with ho | ho
      · rcases hold with rfl | hold
        · cases ho
        · exact (hindex _ old hold).2 o ho
      · rw [List.mem_singleton.mp ho]
        exact ⟨hrest a List.mem_cons_self, rfl⟩

theorem keys_groupByOperator (actions : List Action) :
    (groupByOperator actions).map Prod.fst = (collectByOperator actions).map Prod.fst := by
  simp [groupByOperator]

theorem mem_groupByOperator {actions : List Action} {key : String} {outcomes : List Action}
    (h : (key, outcomes) ∈ groupByOperator actions) :
    outcomes ≠ [] ∧ ∀ outcome ∈ outcomes, outcome ∈ actions ∧ outcome.groupKey = key := by
  obtain ⟨⟨k, collected⟩, hmem, heq⟩ := List.mem_map.mp h
  obtain ⟨rfl, rfl⟩ := Prod.mk.inj heq
  obtain ⟨hne, hall⟩ := mem_collectByOperator hmem
  have hperm := Sorted.sortBy_perm Action.outcomeRank collected
  refine ⟨fun hnil => hne ?_, fun outcome houtcome => hall outcome (hperm.mem_iff.mp houtcome)⟩
  exact (hnil ▸ hperm).symm.eq_nil

theorem wellFormed_ofActions {vars : List Variable} {initial goal : State} {mutexes : List State}
    {actions : List Action} (hinitial : initial.Full (vars.map Variable.domainSize))
    (hgoal : goal.InDomains (vars.map Variable.domainSize))
    (hactions : ∀ a ∈ actions, a.Grounded (vars.map Variable.domainSize)) :
    (ofActions vars initial goal mutexes actions).WellFormed where
  initial := hinitial
  goal := hgoal
  distinct := keys_groupByOperator actions ▸ nodup_keys_collectByOperator actions
  nonempty _ _ h := (mem_groupByOperator h).1
  grounded _ _ h outcome houtcome :=
    have ⟨hmem, hkey⟩ := (mem_groupByOperator h).2 outcome houtcome
    ⟨hkey, hactions outcome hmem⟩

/-- An operator of a well-formed task is found under its key. -/
theorem WellFormed.mem_groups_iff {t : Task} (h : t.WellFormed) {key : String}
    {outcomes : List Action} : (key, outcomes) ∈ t.groups ↔ t.outcomes? key = some outcomes :=
  Keyed.mem_iff_lookup h.distinct

theorem WellFormed.outcomes_unique {t : Task} (h : t.WellFormed) {key : String}
    {outcomes outcomes' : List Action} (hgroup : (key, outcomes) ∈ t.groups)
    (hgroup' : (key, outcomes') ∈ t.groups) : outcomes = outcomes' :=
  Option.some.inj ((h.mem_groups_iff.mp hgroup).symm.trans (h.mem_groups_iff.mp hgroup'))

end Task

end StrongCyclic
