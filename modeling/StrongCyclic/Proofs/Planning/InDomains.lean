import StrongCyclic.Proofs.Planning.Progression

/-!
Tasks all of whose states keep to the domains: besides what a well-formed task asks of the operators,
the mutex groups and the actions by their key keep to them too. So do the add and delete lists of the
actions, because they are derived from precondition and effect.
-/

namespace StrongCyclic

variable {sizes : List Nat}

/-- The add list keeps to the domains, and so do the deleted values, of which there is one list for
each variable. -/
structure Strips.InDomains (sizes : List Nat) (s : Strips) : Prop where
  add : s.add.InDomains sizes
  length_eq : s.delete.length = sizes.length
  deleted_lt : ∀ var values, s.delete[var]? = some values → ∀ value ∈ values,
    value < sizes.getD var 0

theorem Strips.inDomains_derive {precondition effect : State}
    (hprecondition : precondition.InDomains sizes) (heffect : effect.InDomains sizes) :
    (derive precondition effect sizes).InDomains sizes where
  add := heffect
  length_eq := by simpa [derive, State.size] using heffect.size_eq
  deleted_lt var values hvalues value hvalue := by
    obtain ⟨next, -, hold | ⟨-, hlt, -⟩⟩ :=
      mem_deleted_derive.mp (mem_deleted.mpr ⟨values, hvalues, hvalue⟩)
    · exact hprecondition.value_lt var value hold
    · exact hlt

theorem Action.Grounded.strips_inDomains {a : Action} (h : a.Grounded sizes) :
    ∀ s ∈ a.strips, s.InDomains sizes := by
  obtain ⟨effect, heffect, -, hstrips⟩ := h.effect
  intro s hs
  rw [hstrips, List.mem_singleton] at hs
  exact hs ▸ Strips.inDomains_derive h.precondition heffect

namespace Task

/-- The action is found by its key or among the outcomes of an operator. -/
def HasAction (t : Task) (a : Action) : Prop :=
  (∃ key, (key, a) ∈ t.actions) ∨ ∃ key outcomes, (key, outcomes) ∈ t.groups ∧ a ∈ outcomes

/-- A well-formed task in which the mutex groups and all actions keep to the domains. -/
structure InDomains (t : Task) : Prop extends t.WellFormed where
  mutexes : ∀ mutex ∈ t.mutexes, mutex.InDomains t.domainSizes
  actions : ∀ a, t.HasAction a → a.Grounded t.domainSizes

/-- An action that is found by a key has that key. -/
theorem mem_indexByKey {actions : List Action} {key : String} {a : Action}
    (h : (key, a) ∈ indexByKey actions) : a ∈ actions ∧ a.key = key := by
  suffices hfold : ∀ (rest : List Action) (index : List (String × Action)),
      (∀ b ∈ rest, b ∈ actions) → (∀ k b, (k, b) ∈ index → b ∈ actions ∧ b.key = k) →
      ∀ k b, (k, b) ∈ rest.foldl (fun index a => Keyed.insert a.key a index) index →
        b ∈ actions ∧ b.key = k from
    hfold actions [] (fun _ hb => hb) (by simp) key a h
  intro rest
  induction rest with
  | nil => exact fun index _ hindex => hindex
  | cons b rest ih =>
    intro index hrest hindex
    obtain ⟨hb, hrest⟩ := List.forall_mem_cons.mp hrest
    refine ih _ hrest fun k c hmem => ?_
    rcases Keyed.mem_of_mem_alter hmem with hold | hnew
    · exact hindex k c hold
    · obtain ⟨rfl, rfl⟩ := Prod.mk.inj hnew
      exact ⟨hb, rfl⟩

theorem inDomains_ofActions {vars : List Variable} {initial goal : State} {mutexes : List State}
    {actions : List Action} (hinitial : initial.Full (vars.map Variable.domainSize))
    (hgoal : goal.InDomains (vars.map Variable.domainSize))
    (hmutexes : ∀ mutex ∈ mutexes, mutex.InDomains (vars.map Variable.domainSize))
    (hactions : ∀ a ∈ actions, a.Grounded (vars.map Variable.domainSize)) :
    (ofActions vars initial goal mutexes actions).InDomains where
  toWellFormed := wellFormed_ofActions hinitial hgoal hactions
  mutexes := hmutexes
  actions := by
    rintro a (⟨key, hmem⟩ | ⟨key, outcomes, hgroup, hmem⟩)
    · exact hactions a (mem_indexByKey hmem).1
    · exact hactions a ((mem_groupByOperator hgroup).2 a hmem).1

end Task

end StrongCyclic
