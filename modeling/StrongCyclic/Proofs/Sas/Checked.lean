import StrongCyclic.Proofs.Planning.InDomains
import StrongCyclic.Proofs.Sas.Readers

/-!
What the checks of a task file achieve: a file that is read gives a well-formed task, all of whose
states keep to the domains and whose actions are those of its operator blocks.
-/

namespace StrongCyclic.Sas

open Fallible (bind_eq_ok pure_eq_ok)

variable {sizes : List Nat}

theorem checkValue_eq_ok {line var value : Nat} (h : checkValue sizes line var value = .ok ()) :
    value < sizes.getD var 0 := by
  unfold checkValue at h
  rw [List.getD_eq_getElem?_getD]
  cases hsize : sizes[var]? with
  | none => simp [hsize, Reader.fail] at h
  | some size =>
    by_cases hle : size ≤ value
    · simp [hsize, hle, Reader.fail] at h
    · exact Nat.lt_of_not_le hle

theorem checkValues_eq_ok {line start : Nat} {values : List Nat}
    (h : checkValues sizes line start values = .ok ()) {index value : Nat}
    (hget : values[index]? = some value) : value < sizes.getD (start + index) 0 := by
  induction values generalizing start index with
  | nil => simp at hget
  | cons first values ih =>
    obtain ⟨⟨⟩, hfirst, hrest⟩ := bind_eq_ok.mp h
    cases index with
    | zero =>
      cases hget
      exact checkValue_eq_ok hfirst
    | succ index =>
      have hlt := ih hrest hget
      rwa [Nat.add_right_comm] at hlt

theorem checkFacts_eq_ok {facts : List Fact} (h : checkFacts sizes facts = .ok ()) :
    ∀ fact ∈ facts, fact.value < sizes.getD fact.var 0 := by
  induction facts with
  | nil => simp
  | cons fact facts ih =>
    obtain ⟨⟨⟩, hfirst, hrest⟩ := bind_eq_ok.mp h
    exact List.forall_mem_cons.mpr ⟨checkValue_eq_ok hfirst, ih hrest⟩

theorem inDomains_of_stateOfFacts {facts : List Fact} {s : State}
    (h : stateOfFacts sizes facts = .ok s) : s.InDomains sizes := by
  obtain ⟨⟨⟩, hcheck, hs⟩ := bind_eq_ok.mp h
  rw [← pure_eq_ok.mp hs]
  refine State.inDomains_ofPairs fun pair hpair => ?_
  obtain ⟨fact, hfact, rfl⟩ := List.mem_map.mp hpair
  exact checkFacts_eq_ok hcheck fact hfact

theorem inDomains_of_checkedChange {change : Change} {checked : ValueChange}
    (h : checkedChange sizes change = .ok checked) : checked.InDomains sizes := by
  obtain ⟨⟨⟩, hnext, hprev⟩ := bind_eq_ok.mp h
  have hnext := checkValue_eq_ok hnext
  split at hprev
  · cases hprev
  · rw [← pure_eq_ok.mp hprev]
    exact ⟨hnext, by simp⟩
  · next prev _ =>
    obtain ⟨⟨⟩, hcheck, hchecked⟩ := bind_eq_ok.mp hprev
    rw [← pure_eq_ok.mp hchecked]
    refine ⟨hnext, fun prev' hprev' => ?_⟩
    cases hprev'
    exact checkValue_eq_ok hcheck

theorem grounded_of_action {op : Operator} {a : Action} (h : op.action sizes = .ok a) :
    a.header = op.header ∧ a.Grounded sizes := by
  obtain ⟨precondition, hprecondition, h⟩ := bind_eq_ok.mp h
  obtain ⟨changes, hchanges, h⟩ := bind_eq_ok.mp h
  rw [← pure_eq_ok.mp h]
  refine ⟨rfl, Action.grounded_ofChanges (inDomains_of_stateOfFacts hprecondition) ?_⟩
  intro change hchange
  obtain ⟨raw, -, hraw⟩ := Fallible.exists_of_mem_mapM hchanges hchange
  exact inDomains_of_checkedChange hraw

theorem full_of_initialOf {line : Nat} {values : List Nat} {s : State}
    (h : initialOf sizes line values = .ok s) : s.Full sizes := by
  unfold initialOf at h
  split at h
  · cases h
  · next hlength =>
    have hlength : values.length = sizes.length := Decidable.not_not.mp hlength
    obtain ⟨⟨⟩, hcheck, hs⟩ := bind_eq_ok.mp h
    rw [← pure_eq_ok.mp hs]
    have hvalue : ∀ var, (State.ofValues values).value? var = values[var]? := by
      intro var
      simp only [State.value?, State.ofValues, List.getD_eq_getElem?_getD, List.getElem?_map]
      cases values[var]? <;> rfl
    refine ⟨⟨by simp [State.ofValues, State.size, hlength], fun var value hv => ?_⟩, ?_⟩
    · rw [hvalue] at hv
      simpa using checkValues_eq_ok hcheck hv
    · intro var hvar
      rw [hvalue]
      exact ⟨_, List.getElem?_eq_getElem (hlength ▸ hvar)⟩

/-- The states of the task of checked blocks keep to the domains, and its actions carry the headers of
the operator blocks. -/
theorem inDomains_of_taskOf {lastLine : Nat} {blocks : List Block} {t : Task}
    (h : taskOf lastLine blocks = .ok t) :
    t.InDomains ∧ ∀ key outcomes, (key, outcomes) ∈ t.groups → ∀ outcome ∈ outcomes,
      ∃ op ∈ operatorsOf blocks, outcome.header = op.header := by
  unfold taskOf at h
  dsimp only at h
  split at h
  · cases h
  · obtain ⟨initial, hinitial, h⟩ := bind_eq_ok.mp h
    obtain ⟨goal, hgoal, h⟩ := bind_eq_ok.mp h
    obtain ⟨mutexes, hmutexes, h⟩ := bind_eq_ok.mp h
    obtain ⟨actions, hactions, h⟩ := bind_eq_ok.mp h
    rw [← pure_eq_ok.mp h]
    have hop : ∀ a ∈ actions, ∃ op ∈ operatorsOf blocks, op.action _ = .ok a :=
      fun a ha => Fallible.exists_of_mem_mapM hactions ha
    refine ⟨Task.inDomains_ofActions (full_of_initialOf hinitial)
      (inDomains_of_stateOfFacts hgoal) (fun mutex hmutex => ?_) fun a ha => ?_,
      fun key outcomes hgroup outcome ho => ?_⟩
    · obtain ⟨facts, -, hok⟩ := Fallible.exists_of_mem_mapM hmutexes hmutex
      exact inDomains_of_stateOfFacts hok
    · obtain ⟨op, -, hok⟩ := hop a ha
      exact (grounded_of_action hok).2
    · obtain ⟨op, hmem, hok⟩ := hop outcome ((Task.mem_groupByOperator hgroup).2 outcome ho).1
      exact ⟨op, hmem, (grounded_of_action hok).1⟩

theorem inDomains_of_parse {text : String} {t : Task} (h : parse text = .ok t) : t.InDomains := by
  obtain ⟨last, blocks, -, -, htask⟩ := exists_blocks_of_parse h
  exact (inDomains_of_taskOf htask).1

theorem wellFormed_of_parse {text : String} {t : Task} (h : parse text = .ok t) :
    t.WellFormed :=
  (inDomains_of_parse h).toWellFormed

end StrongCyclic.Sas
