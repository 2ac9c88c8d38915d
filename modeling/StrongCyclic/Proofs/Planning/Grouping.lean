import Mathlib.Algebra.GroupWithZero.Nat
import StrongCyclic.Proofs.Collection.Canonical
import StrongCyclic.Proofs.Collection.Grouped
import StrongCyclic.Proofs.Planning.WellFormed

/-!
The two indices of a task, whatever the list of its actions. Under the key of an operator stand the
actions that have it, by the number of their outcome and by their place in the list where the numbers
are the same; under the key of an action stands the last one that has it. If the outcomes of an
operator have different numbers, the list may come in any order.
-/

namespace StrongCyclic.Task

/-- The groups are the actions by the key of their operator, in the order in which the keys first
appear. Each group is sorted by the numbers of the outcomes, and the actions of one number stand in it
as they stand in the list. -/
structure Groups (actions : List Action) (groups : List (String × List Action)) : Prop where
  keys : groups.map Prod.fst = (actions.map Action.groupKey).eraseDups
  perm : (groups.flatMap Prod.snd).Perm actions
  keyed : ∀ group ∈ groups, ∀ a ∈ group.2, a.groupKey = group.1
  sorted : ∀ group ∈ groups, group.2.Pairwise (·.outcomeRank ≤ ·.outcomeRank)
  ties : ∀ group ∈ groups, ∀ rank, group.2.filter (·.outcomeRank = rank) =
    actions.filter fun a => a.groupKey = group.1 ∧ a.outcomeRank = rank

variable {actions actions' : List Action} {key : String} {outcomes : List Action}

/-- The outcomes of the operator with a key. -/
def outcomesAmong (actions : List Action) (key : String) : List Action :=
  Sorted.sortBy Action.outcomeRank (actions.filter (·.groupKey = key))

theorem groupByOperator_eq (actions : List Action) :
    groupByOperator actions = (actions.map Action.groupKey).eraseDups.map fun key =>
      (key, outcomesAmong actions key) := by
  rw [groupByOperator, collectByOperator, Keyed.foldl_push_eq, List.map_map]
  rfl

theorem outcomesAmong_perm : (outcomesAmong actions key).Perm (actions.filter (·.groupKey = key)) :=
  Sorted.sortBy_perm _ _

theorem groups_groupByOperator (actions : List Action) :
    Groups actions (groupByOperator actions) := by
  rw [groupByOperator_eq]
  refine ⟨by simp [Function.comp_def], ?_, ?_, ?_, ?_⟩
  · rw [List.flatMap_map]
    refine (List.Perm.flatMap_left _ fun key _ => outcomesAmong_perm).trans
      (flatMap_filter_perm (nodup_eraseDups _) fun a ha => ?_)
    exact List.mem_eraseDups.mpr (List.mem_map_of_mem ha)
  all_goals
    intro group hgroup
    obtain ⟨key, -, rfl⟩ := List.mem_map.mp hgroup
  · intro a ha
    simpa using (List.mem_filter.mp (outcomesAmong_perm.mem_iff.mp ha)).2
  · exact Sorted.pairwise_sortBy _
  · intro rank
    rw [outcomesAmong, Sorted.filter_sortBy, List.filter_filter]
    exact List.filter_congr fun a _ => by rw [Bool.and_comm, Bool.decide_and]

theorem lookup_groupByOperator (actions : List Action) (key : String) :
    (groupByOperator actions).lookup key =
      if key ∈ actions.map Action.groupKey then some (outcomesAmong actions key) else none := by
  have hlookup : ∀ keys : List String, (keys.map fun k => (k, outcomesAmong actions k)).lookup key =
      if key ∈ keys then some (outcomesAmong actions key) else none := by
    intro keys
    induction keys with
    | nil => rfl
    | cons first keys ih =>
      rw [List.map_cons, List.lookup_cons, ih]
      by_cases h : key = first
      · simp [h]
      · simp [h, beq_eq_false_iff_ne.mpr h]
  rw [groupByOperator_eq, hlookup]
  simp only [List.mem_eraseDups]

/-! ### Lists in another order -/

/-- Within each group the outcomes have different numbers. -/
def RanksDiffer (groups : List (String × List Action)) : Prop :=
  ∀ group ∈ groups, (group.2.map Action.outcomeRank).Nodup

instance (groups : List (String × List Action)) : Decidable (RanksDiffer groups) :=
  inferInstanceAs (Decidable (∀ group ∈ groups, (group.2.map Action.outcomeRank).Nodup))

theorem RanksDiffer.nodup (h : RanksDiffer (groupByOperator actions)) (key : String) :
    ((actions.filter (·.groupKey = key)).map Action.outcomeRank).Nodup := by
  by_cases hkey : key ∈ actions.map Action.groupKey
  · rw [groupByOperator_eq] at h
    have hgroup := h _ (List.mem_map_of_mem (List.mem_eraseDups.mpr hkey))
    exact (outcomesAmong_perm.map _).nodup_iff.mp hgroup
  · simp [filter_key_eq_nil hkey]

theorem lookup_groupByOperator_of_perm (h : RanksDiffer (groupByOperator actions))
    (hperm : actions'.Perm actions) (key : String) :
    (groupByOperator actions').lookup key = (groupByOperator actions).lookup key := by
  have hsort : outcomesAmong actions' key = outcomesAmong actions key :=
    (Sorted.sortBy_eq_of_perm (hperm.symm.filter _) (h.nodup key)).symm
  simp only [lookup_groupByOperator, hsort, (hperm.map Action.groupKey).mem_iff]

theorem nodup_keys_groupByOperator (actions : List Action) :
    ((groupByOperator actions).map Prod.fst).Nodup :=
  keys_groupByOperator actions ▸ nodup_keys_collectByOperator actions

theorem mem_groupByOperator_iff :
    (key, outcomes) ∈ groupByOperator actions ↔
      (groupByOperator actions).lookup key = some outcomes :=
  Keyed.mem_iff_lookup (nodup_keys_groupByOperator actions)

/-- If the outcomes of the operators have different numbers, only the order of the operators depends
on the order of the actions. -/
theorem groupByOperator_perm (h : RanksDiffer (groupByOperator actions))
    (hperm : actions'.Perm actions) :
    (groupByOperator actions').Perm (groupByOperator actions) := by
  have hnodup (as : List Action) : (groupByOperator as).Nodup :=
    .of_map Prod.fst (nodup_keys_groupByOperator as)
  refine (List.perm_ext_iff_of_nodup (hnodup _) (hnodup _)).mpr fun group => ?_
  rw [mem_groupByOperator_iff, mem_groupByOperator_iff, lookup_groupByOperator_of_perm h hperm]

/-! ### The index of the actions -/

theorem lookup_indexByKey (actions : List Action) (key : String) :
    (indexByKey actions).lookup key = (actions.filter (·.key = key)).getLast? :=
  Keyed.lookup_foldl_insert _ _ _

theorem length_indexByKey (h : (actions.map Action.key).Nodup) :
    (indexByKey actions).length = actions.length := by
  calc (indexByKey actions).length
    _ = ((indexByKey actions).map Prod.fst).length := List.length_map _ |>.symm
    _ = (actions.map Action.key).eraseDups.length :=
      congrArg _ (Keyed.keys_foldl_alter Action.key (fun a _ => a) actions)
    _ = actions.length := by rw [(eraseDups_perm_of_nodup h).length_eq, List.length_map]

theorem Groups.sum_length {groups : List (String × List Action)} (h : Groups actions groups) :
    (groups.map (·.2.length)).sum = actions.length := by
  rw [← h.perm.length_eq, List.length_flatMap]

end StrongCyclic.Task
