import StrongCyclic.Proofs.Controller.RoundTrip

/-!
What an answer says of a controller. Three kinds of atoms are its entries. The construction fails just
if one of them has not the form of an entry, or the entries do not make a controller; else the states,
assignments, actions and transitions are those that the entries name, where a later entry takes the
place of an earlier one for the same slot or state. `Collected` is this, for the atoms read so far.
-/

namespace StrongCyclic

/-! ### Entries -/

namespace Atom

/-- The atom is `holds(id, var, value)`. -/
def Holds (a : Atom) (id var value : Nat) : Prop :=
  a.is "holds" 3 = true ∧ a.index? 0 = some id ∧ a.index? 1 = some var ∧ a.index? 2 = some value

/-- The atom is `policy(id, action)`. -/
def Chooses (a : Atom) (id : Nat) (action : String) : Prop :=
  a.is "policy" 2 = true ∧ a.index? 0 = some id ∧ a.text? 1 = some action

/-- The atom is `transition(source, tag, target)`. -/
def Moves (a : Atom) (t : Transition) : Prop :=
  a.is "transition" 3 = true ∧ a.index? 0 = some t.source ∧ a.text? 1 = some t.tag ∧
    a.index? 2 = some t.target

theorem eq_of_is {a : Atom} {p q : String} {m n : Nat} (hp : a.is p m = true)
    (hq : a.is q n = true) : p = q := by
  simp only [is, Bool.and_eq_true, decide_eq_true_eq] at hp hq
  exact hp.1.symm.trans hq.1

variable {a : Atom} {id id' var var' value value' : Nat} {action action' : String}
  {t t' : Transition}

theorem Holds.unique (h : a.Holds id var value) (h' : a.Holds id' var' value') :
    id = id' ∧ var = var' ∧ value = value' :=
  ⟨Option.some.inj (h.2.1.symm.trans h'.2.1), Option.some.inj (h.2.2.1.symm.trans h'.2.2.1),
    Option.some.inj (h.2.2.2.symm.trans h'.2.2.2)⟩

theorem Chooses.unique (h : a.Chooses id action) (h' : a.Chooses id' action') :
    id = id' ∧ action = action' :=
  ⟨Option.some.inj (h.2.1.symm.trans h'.2.1), Option.some.inj (h.2.2.symm.trans h'.2.2)⟩

theorem Moves.unique (h : a.Moves t) (h' : a.Moves t') : t = t' := by
  have hsource := Option.some.inj (h.2.1.symm.trans h'.2.1)
  have htag := Option.some.inj (h.2.2.1.symm.trans h'.2.2.1)
  have htarget := Option.some.inj (h.2.2.2.symm.trans h'.2.2.2)
  cases t
  cases t'
  simp_all

theorem Holds.not_chooses (h : a.Holds id var value) : ¬ a.Chooses id' action :=
  fun h' => absurd (eq_of_is h.1 h'.1) (by decide)

theorem Holds.not_moves (h : a.Holds id var value) : ¬ a.Moves t :=
  fun h' => absurd (eq_of_is h.1 h'.1) (by decide)

theorem Chooses.not_holds (h : a.Chooses id action) : ¬ a.Holds id' var value :=
  fun h' => h'.not_chooses h

theorem Chooses.not_moves (h : a.Chooses id action) : ¬ a.Moves t :=
  fun h' => absurd (eq_of_is h.1 h'.1) (by decide)

theorem Moves.not_holds (h : a.Moves t) : ¬ a.Holds id var value :=
  fun h' => h'.not_moves h

theorem Moves.not_chooses (h : a.Moves t) : ¬ a.Chooses id action :=
  fun h' => h'.not_moves h

end Atom

/-- Of the atoms that give a value, the last one gives this value. -/
def LastGiven {β : Type} (gives : Atom → β → Prop) (atoms : List Atom) (value : β) : Prop :=
  ∃ before a after, atoms = before ++ a :: after ∧ gives a value ∧
    ∀ b ∈ after, ∀ other, ¬ gives b other

section LastGiven

variable {β : Type} {gives : Atom → β → Prop} {atoms : List Atom} {a : Atom} {value : β}

theorem not_lastGiven_nil : ¬ LastGiven gives [] value := by
  rintro ⟨before, a, after, hnil, -⟩
  simp at hnil

theorem lastGiven_snoc :
    LastGiven gives (atoms ++ [a]) value ↔
      gives a value ∨ (∀ other, ¬ gives a other) ∧ LastGiven gives atoms value := by
  constructor
  · rintro ⟨before, b, after, heq, hb, hafter⟩
    rcases List.eq_nil_or_concat after with rfl | ⟨after, last, rfl⟩
    · obtain ⟨-, hlast⟩ := List.append_inj' heq rfl
      cases hlast
      exact .inl hb
    · rw [List.concat_eq_append, ← List.cons_append, ← List.append_assoc] at heq
      obtain ⟨rfl, hlast⟩ := List.append_inj' heq rfl
      cases hlast
      refine .inr ⟨hafter a (by simp), before, b, after, rfl, hb, fun c hc => hafter c ?_⟩
      simp [hc]
  · rintro (ha | ⟨ha, before, b, after, rfl, hb, hafter⟩)
    · exact ⟨atoms, a, [], rfl, ha, by simp⟩
    · refine ⟨before, b, after ++ [a], by simp, hb, fun c hc => ?_⟩
      rcases List.mem_append.mp hc with hc | hc
      · exact hafter c hc
      · exact List.mem_singleton.mp hc ▸ ha

/-- An atom that gives nothing changes nothing. -/
theorem lastGiven_snoc_of_not (h : ∀ other, ¬ gives a other) :
    LastGiven gives (atoms ++ [a]) value ↔ LastGiven gives atoms value := by
  rw [lastGiven_snoc, or_iff_right (h value), and_iff_right h]

/-- An atom that gives a value has the last word. -/
theorem lastGiven_snoc_of_gives (h : gives a value) (hunique : ∀ other, gives a other → value = other)
    (other : β) : LastGiven gives (atoms ++ [a]) other ↔ value = other := by
  rw [lastGiven_snoc]
  constructor
  · rintro (hother | ⟨hnone, -⟩)
    · exact hunique other hother
    · exact absurd h (hnone value)
  · rintro rfl
    exact .inl h

theorem LastGiven.exists_mem (h : LastGiven gives atoms value) : ∃ a ∈ atoms, gives a value := by
  obtain ⟨before, a, after, rfl, ha, -⟩ := h
  exact ⟨a, by simp, ha⟩

theorem exists_lastGiven (h : ∃ a ∈ atoms, ∃ value, gives a value) :
    ∃ value, LastGiven gives atoms value := by
  induction atoms using List.reverseRecOn with
  | nil => simp at h
  | append_singleton atoms last ih =>
    by_cases hlast : ∃ value, gives last value
    · obtain ⟨value, hvalue⟩ := hlast
      exact ⟨value, lastGiven_snoc.mpr (.inl hvalue)⟩
    · obtain ⟨a, ha, hgives⟩ := h
      rcases List.mem_append.mp ha with ha | ha
      · obtain ⟨value, hvalue⟩ := ih ⟨a, ha, hgives⟩
        exact ⟨value, (lastGiven_snoc_of_not (not_exists.mp hlast)).mpr hvalue⟩
      · exact absurd (List.mem_singleton.mp ha ▸ hgives) hlast

end LastGiven

namespace Controller

open Fallible (bind_eq_ok pure_eq_ok)

variable {n : Nat} {c c' : Controller} {a : Atom}

/-! ### Taking over an atom -/

theorem addHolds_eq_ok : c.addHolds a = .ok c' ↔ ∃ id var value, a.index? 0 = some id ∧
    a.index? 1 = some var ∧ a.index? 2 = some value ∧ c.assign id var value = some c' := by
  unfold addHolds fail
  cases a.index? 0 with
  | none => simp
  | some id =>
    cases a.index? 1 with
    | none => simp
    | some var =>
      cases a.index? 2 with
      | none => simp
      | some value => cases hassign : c.assign id var value <;> simp [hassign]

theorem addPolicy_eq_ok : c.addPolicy a = .ok c' ↔
    ∃ id action, a.index? 0 = some id ∧ a.text? 1 = some action ∧ c.setPolicy id action = c' := by
  unfold addPolicy fail
  cases a.index? 0 with
  | none => simp
  | some id => cases a.text? 1 <;> simp

theorem addTransitionAtom_eq_ok : c.addTransitionAtom a = .ok c' ↔
    ∃ t : Transition, a.index? 0 = some t.source ∧ a.text? 1 = some t.tag ∧
      a.index? 2 = some t.target ∧ c.addTransition t = c' := by
  unfold addTransitionAtom fail
  constructor
  · intro h
    split at h
    · next source tag target hsource htag htarget =>
      cases h
      exact ⟨⟨source, tag, target⟩, hsource, htag, htarget, rfl⟩
    · cases h
  · rintro ⟨⟨source, tag, target⟩, hsource, htag, htarget, rfl⟩
    simp [hsource, htag, htarget]

/-- The atom is no entry of a controller. -/
def IsOther (a : Atom) : Prop :=
  a.is "holds" 3 = false ∧ a.is "policy" 2 = false ∧ a.is "transition" 3 = false

/-- What taking over an atom can do. -/
theorem addAtom_eq_ok : c.addAtom a = .ok c' ↔
    (∃ id var value, a.Holds id var value ∧ c.assign id var value = some c') ∨
    (∃ id action, a.Chooses id action ∧ c.setPolicy id action = c') ∨
    (∃ t, a.Moves t ∧ c.addTransition t = c') ∨ IsOther a ∧ c = c' := by
  have hexclusive : ∀ {p q : String} {k l : Nat}, p ≠ q → a.is p k = true → a.is q l = false :=
    fun hne hp => Bool.eq_false_iff.mpr fun hq => hne (Atom.eq_of_is hp hq)
  unfold addAtom IsOther Atom.Holds Atom.Chooses Atom.Moves
  by_cases hholds : a.is "holds" 3 = true
  · have hpolicy : a.is "policy" 2 = false := hexclusive (by decide) hholds
    have htransition : a.is "transition" 3 = false := hexclusive (by decide) hholds
    simp [hholds, hpolicy, htransition, addHolds_eq_ok, and_assoc]
  · by_cases hpolicy : a.is "policy" 2 = true
    · have htransition : a.is "transition" 3 = false := hexclusive (by decide) hpolicy
      simp [hholds, hpolicy, htransition, addPolicy_eq_ok, and_assoc]
    · by_cases htransition : a.is "transition" 3 = true
      · simp [hholds, hpolicy, htransition, addTransitionAtom_eq_ok, and_assoc]
      · simp [hholds, hpolicy, htransition]

/-- The arguments of the atom have the form that its predicate asks for, and a variable that it
assigns is one of `n`. -/
structure Reads (n : Nat) (a : Atom) : Prop where
  holds : a.is "holds" 3 = true → ∃ id var value, a.Holds id var value ∧ var < n
  policy : a.is "policy" 2 = true → ∃ id action, a.Chooses id action
  transition : a.is "transition" 3 = true → ∃ t, a.Moves t

theorem assign_eq_some {id var value : Nat} : c.assign id var value = some c' ↔
    var < c.numVariables ∧ { c with
      states := IdMap.alter id
        (fun old => (old.getD (State.undefined c.numVariables)).set var (some value))
        c.states } = c' := by
  unfold assign
  split
  · simp only [reduceCtorEq, false_iff, not_and]
    omega
  · rw [Option.some.injEq, and_iff_right (by omega)]

theorem exists_addAtom_iff : (∃ c', c.addAtom a = .ok c') ↔ Reads c.numVariables a := by
  constructor
  · rintro ⟨c', h⟩
    rcases addAtom_eq_ok.mp h with ⟨id, var, value, ha, hassign⟩ | ⟨id, action, ha, -⟩ |
      ⟨t, ha, -⟩ | ⟨⟨hholds, hpolicy, htransition⟩, -⟩
    · exact ⟨fun _ => ⟨id, var, value, ha, (assign_eq_some.mp hassign).1⟩,
        fun h => absurd (Atom.eq_of_is ha.1 h) (by decide),
        fun h => absurd (Atom.eq_of_is ha.1 h) (by decide)⟩
    · exact ⟨fun h => absurd (Atom.eq_of_is ha.1 h) (by decide), fun _ => ⟨id, action, ha⟩,
        fun h => absurd (Atom.eq_of_is ha.1 h) (by decide)⟩
    · exact ⟨fun h => absurd (Atom.eq_of_is ha.1 h) (by decide),
        fun h => absurd (Atom.eq_of_is ha.1 h) (by decide), fun _ => ⟨t, ha⟩⟩
    · exact ⟨fun h => by simp [hholds] at h, fun h => by simp [hpolicy] at h,
        fun h => by simp [htransition] at h⟩
  · rintro ⟨hholds, hpolicy, htransition⟩
    by_cases h₁ : a.is "holds" 3 = true
    · obtain ⟨id, var, value, ha, hvar⟩ := hholds h₁
      exact ⟨_, addAtom_eq_ok.mpr (.inl ⟨id, var, value, ha, assign_eq_some.mpr ⟨hvar, rfl⟩⟩)⟩
    · by_cases h₂ : a.is "policy" 2 = true
      · obtain ⟨id, action, ha⟩ := hpolicy h₂
        exact ⟨_, addAtom_eq_ok.mpr (.inr (.inl ⟨id, action, ha, rfl⟩))⟩
      · by_cases h₃ : a.is "transition" 3 = true
        · obtain ⟨t, ha⟩ := htransition h₃
          exact ⟨_, addAtom_eq_ok.mpr (.inr (.inr (.inl ⟨t, ha, rfl⟩)))⟩
        · have hother : IsOther a := by simp [IsOther, h₁, h₂, h₃]
          exact ⟨c, addAtom_eq_ok.mpr (.inr (.inr (.inr ⟨hother, rfl⟩)))⟩

/-! ### What an entry changes -/

/-- The value that a state declares for a variable. -/
def valueAt? (c : Controller) (id var : Nat) : Option Nat :=
  (c.state? id).bind (·.value? var)

theorem size_getD_undefined {old : Option State} (h : ∀ s ∈ old, s.size = n) :
    (old.getD (State.undefined n)).size = n := by
  cases old with
  | none => simp [State.undefined, State.size]
  | some s => exact h s rfl

theorem valueAt?_addState (h : IdMap.Increasing c.states) (id k v : Nat) :
    (c.addState id).valueAt? k v = c.valueAt? k v := by
  rw [valueAt?, state?, addState, IdMap.ensure, IdMap.lookup_alter h, valueAt?, state?]
  split
  · next hk =>
    rw [hk]
    cases c.states.lookup id <;> simp
  · rfl

theorem valueAt?_assign (h : IdMap.Increasing c.states)
    (hsize : ∀ entry ∈ c.states, entry.2.size = c.numVariables) {id var value : Nat}
    (hassign : c.assign id var value = some c') (k v : Nat) :
    c'.valueAt? k v = if k = id ∧ v = var then some value else c.valueAt? k v := by
  obtain ⟨hvar, rfl⟩ := assign_eq_some.mp hassign
  simp only [valueAt?, state?, IdMap.lookup_alter h]
  by_cases hk : k = id
  · have hold : ((c.states.lookup id).getD (State.undefined c.numVariables)).size =
        c.numVariables := size_getD_undefined fun s hs => by
      obtain ⟨before, after, hstates, -⟩ := List.lookup_eq_some_iff.mp hs
      exact hsize (id, s) (by simp [hstates])
    simp only [hk, if_true, Option.bind_some, State.value?_set, hold, hvar, and_true, true_and]
    split
    · rfl
    · cases c.states.lookup id <;> simp
  · simp [hk]

/-! ### The atoms read so far -/

/-- The atoms name the state: they assign a variable in it, or a transition starts or ends there. -/
def Names (atoms : List Atom) (id : Nat) : Prop :=
  ∃ a ∈ atoms, (∃ var value, a.Holds id var value) ∨
    ∃ t, a.Moves t ∧ (id = t.source ∨ id = t.target)

/-- The controller is made of the entries among the atoms. -/
structure Collected (number n : Nat) (atoms : List Atom) (c : Controller) : Prop where
  answer_eq : c.answer = number
  numVariables_eq : c.numVariables = n
  states_increasing : IdMap.Increasing c.states
  policy_increasing : IdMap.Increasing c.policy
  size_eq : ∀ entry ∈ c.states, entry.2.size = n
  mem_ids_iff : ∀ id, id ∈ c.ids ↔ Names atoms id
  valueAt?_iff : ∀ id var value, c.valueAt? id var = some value ↔
    LastGiven (fun a => a.Holds id var) atoms value
  policy?_iff : ∀ id action, c.policy? id = some action ↔
    LastGiven (fun a => a.Chooses id) atoms action
  mem_transitions_iff : ∀ t, t ∈ c.transitions ↔ ∃ a ∈ atoms, a.Moves t

theorem names_snoc {atoms : List Atom} {id : Nat} : Names (atoms ++ [a]) id ↔
    Names atoms id ∨ (∃ var value, a.Holds id var value) ∨
      ∃ t, a.Moves t ∧ (id = t.source ∨ id = t.target) := by
  simp [Names, or_and_right, exists_or]

theorem names_snoc_of_not {atoms : List Atom} {id : Nat}
    (hholds : ∀ var value, ¬ a.Holds id var value) (hmoves : ∀ t, ¬ a.Moves t) :
    Names (atoms ++ [a]) id ↔ Names atoms id := by
  rw [names_snoc, or_iff_left]
  rintro (⟨var, value, h⟩ | ⟨t, h, -⟩)
  · exact hholds var value h
  · exact hmoves t h

theorem exists_moves_snoc {atoms : List Atom} {t : Transition} :
    (∃ b ∈ atoms ++ [a], b.Moves t) ↔ (∃ b ∈ atoms, b.Moves t) ∨ a.Moves t := by
  simp [or_and_right, exists_or]

theorem exists_moves_snoc_of_not {atoms : List Atom} {t : Transition} (h : ¬ a.Moves t) :
    (∃ b ∈ atoms ++ [a], b.Moves t) ↔ ∃ b ∈ atoms, b.Moves t := by
  rw [exists_moves_snoc, or_iff_left h]

theorem collected_empty (number n : Nat) : Collected number n [] (empty number n) where
  answer_eq := rfl
  numVariables_eq := rfl
  states_increasing := by simp [empty, IdMap.Increasing]
  policy_increasing := by simp [empty, IdMap.Increasing]
  size_eq := by simp [empty]
  mem_ids_iff := by simp [ids, empty, Names]
  valueAt?_iff := by simp [valueAt?, state?, empty, not_lastGiven_nil]
  policy?_iff := by simp [policy?, empty, not_lastGiven_nil]
  mem_transitions_iff := by simp [empty]

namespace Collected

variable {number : Nat} {atoms : List Atom}

theorem assign (h : Collected number n atoms c) {id var value : Nat}
    (ha : a.Holds id var value) (hassign : c.assign id var value = some c') :
    Collected number n (atoms ++ [a]) c' := by
  have hsizes : ∀ entry ∈ c.states, entry.2.size = c.numVariables :=
    fun entry hentry => (h.size_eq entry hentry).trans h.numVariables_eq.symm
  have hvalues := valueAt?_assign h.states_increasing hsizes hassign
  obtain ⟨hvar, rfl⟩ := assign_eq_some.mp hassign
  exact
    { answer_eq := h.answer_eq
      numVariables_eq := h.numVariables_eq
      states_increasing := h.states_increasing.alter id _
      policy_increasing := h.policy_increasing
      size_eq := IdMap.forall_mem_alter h.size_eq fun old hold => by
        rw [State.size_set, h.numVariables_eq]
        exact size_getD_undefined hold
      -- the atom names its own state, and no other
      mem_ids_iff := fun k => by
        rw [names_snoc, ← h.mem_ids_iff]
        refine (IdMap.mem_keys_alter ..).trans (or_comm.trans (or_congr_right ?_))
        constructor
        · rintro rfl
          exact .inl ⟨var, value, ha⟩
        · rintro (⟨var', value', hk⟩ | ⟨t, ht, -⟩)
          · exact (hk.unique ha).1
          · exact absurd ht ha.not_moves
      valueAt?_iff := fun k v w => by
        rw [hvalues]
        split
        · next hkv =>
          obtain ⟨rfl, rfl⟩ := hkv
          rw [Option.some.injEq]
          exact (lastGiven_snoc_of_gives ha (fun _ hw => (ha.unique hw).2.2) w).symm
        · next hkv =>
          rw [h.valueAt?_iff, lastGiven_snoc_of_not]
          rintro w' hw'
          obtain ⟨rfl, rfl, -⟩ := hw'.unique ha
          exact hkv ⟨rfl, rfl⟩
      policy?_iff := fun k action => by
        rw [lastGiven_snoc_of_not fun _ => ha.not_chooses]
        exact h.policy?_iff k action
      mem_transitions_iff := fun t =>
        (h.mem_transitions_iff t).trans (exists_moves_snoc_of_not ha.not_moves).symm }

theorem setPolicy (h : Collected number n atoms c) {id : Nat} {action : String}
    (ha : a.Chooses id action) : Collected number n (atoms ++ [a]) (c.setPolicy id action) where
  answer_eq := h.answer_eq
  numVariables_eq := h.numVariables_eq
  states_increasing := h.states_increasing
  policy_increasing := h.policy_increasing.alter id _
  size_eq := h.size_eq
  mem_ids_iff k := (h.mem_ids_iff k).trans
    (names_snoc_of_not (fun _ _ => ha.not_holds) fun _ => ha.not_moves).symm
  valueAt?_iff k v w := by
    rw [lastGiven_snoc_of_not fun _ => ha.not_holds]
    exact h.valueAt?_iff k v w
  policy?_iff k b := by
    rw [policy?, Controller.setPolicy, IdMap.insert, IdMap.lookup_alter h.policy_increasing]
    split
    · next hk =>
      subst hk
      rw [Option.some.injEq]
      exact (lastGiven_snoc_of_gives ha (fun _ hb => (ha.unique hb).2) b).symm
    · next hk =>
      rw [lastGiven_snoc_of_not fun _ hb => hk (hb.unique ha).1]
      exact h.policy?_iff k b
  mem_transitions_iff t :=
    (h.mem_transitions_iff t).trans (exists_moves_snoc_of_not ha.not_moves).symm

theorem addTransition (h : Collected number n atoms c) {t : Transition} (ha : a.Moves t) :
    Collected number n (atoms ++ [a]) (c.addTransition t) := by
  have hsize : ∀ {c : Controller} {id : Nat}, c.numVariables = n →
      (∀ entry ∈ c.states, entry.2.size = n) → ∀ entry ∈ (c.addState id).states, entry.2.size = n :=
    fun hn hall => IdMap.forall_mem_alter hall fun old hold => by
      rw [hn]
      exact size_getD_undefined hold
  have hsource := h.states_increasing.alter t.source (·.getD (State.undefined c.numVariables))
  exact
    { answer_eq := h.answer_eq
      numVariables_eq := h.numVariables_eq
      states_increasing := hsource.alter t.target _
      policy_increasing := h.policy_increasing
      size_eq := hsize h.numVariables_eq (hsize h.numVariables_eq h.size_eq)
      -- the ends of the transition become states, but no value is assigned in them
      mem_ids_iff := fun k => by
        change k ∈ ((c.addState t.source).addState t.target).ids ↔ _
        rw [mem_ids_addState, mem_ids_addState, names_snoc, ← h.mem_ids_iff]
        constructor
        · rintro (rfl | rfl | hk)
          · exact .inr (.inr ⟨t, ha, .inr rfl⟩)
          · exact .inr (.inr ⟨t, ha, .inl rfl⟩)
          · exact .inl hk
        · rintro (hk | ⟨var, value, hk⟩ | ⟨t', ht', hk⟩)
          · exact .inr (.inr hk)
          · exact absurd hk ha.not_holds
          · obtain rfl := ht'.unique ha
            exact hk.elim (fun hk => .inr (.inl hk)) .inl
      valueAt?_iff := fun k v w => by
        change ((c.addState t.source).addState t.target).valueAt? k v = some w ↔ _
        rw [valueAt?_addState hsource, valueAt?_addState h.states_increasing,
          lastGiven_snoc_of_not fun _ => ha.not_holds]
        exact h.valueAt?_iff k v w
      policy?_iff := fun k action => by
        rw [lastGiven_snoc_of_not fun _ => ha.not_chooses]
        exact h.policy?_iff k action
      mem_transitions_iff := fun t' => by
        change t' ∈ c.transitions ++ [t] ↔ _
        rw [exists_moves_snoc, ← h.mem_transitions_iff, List.mem_append, List.mem_singleton]
        exact or_congr_right ⟨fun ht => ht ▸ ha, fun ht => ht.unique ha⟩ }

theorem other (h : Collected number n atoms c) (ha : IsOther a) :
    Collected number n (atoms ++ [a]) c := by
  obtain ⟨hholds, hpolicy, htransition⟩ := ha
  have hnotHolds : ∀ {id var value}, ¬ a.Holds id var value := fun ha => by
    simp [ha.1] at hholds
  have hnotChooses : ∀ {id action}, ¬ a.Chooses id action := fun ha => by
    simp [ha.1] at hpolicy
  have hnotMoves : ∀ {t}, ¬ a.Moves t := fun ha => by
    simp [ha.1] at htransition
  refine { h with mem_ids_iff := fun k => ?_, valueAt?_iff := fun k v w => ?_,
                  policy?_iff := fun k action => ?_, mem_transitions_iff := fun t => ?_ }
  · rw [names_snoc_of_not (fun _ _ => hnotHolds) fun _ => hnotMoves]
    exact h.mem_ids_iff k
  · rw [lastGiven_snoc_of_not fun _ => hnotHolds]
    exact h.valueAt?_iff k v w
  · rw [lastGiven_snoc_of_not fun _ => hnotChooses]
    exact h.policy?_iff k action
  · rw [exists_moves_snoc_of_not hnotMoves]
    exact h.mem_transitions_iff t

theorem addAtom (h : Collected number n atoms c) (hadd : c.addAtom a = .ok c') :
    Collected number n (atoms ++ [a]) c' := by
  rcases addAtom_eq_ok.mp hadd with ⟨id, var, value, ha, hassign⟩ | ⟨id, action, ha, rfl⟩ |
    ⟨t, ha, rfl⟩ | ⟨ha, rfl⟩
  · exact h.assign ha hassign
  · exact h.setPolicy ha
  · exact h.addTransition ha
  · exact h.other ha

/-- The atoms that have been taken over make up the controller. -/
theorem foldlM_addAtom (h : atoms.foldlM Controller.addAtom (empty number n) = .ok c) :
    Collected number n atoms c := by
  induction atoms using List.reverseRecOn generalizing c with
  | nil => exact pure_eq_ok.mp h ▸ collected_empty number n
  | append_singleton atoms a ih =>
    rw [List.foldlM_append] at h
    obtain ⟨c₁, hatoms, h⟩ := bind_eq_ok.mp h
    rw [List.foldlM_cons] at h
    obtain ⟨c₂, hadd, h⟩ := bind_eq_ok.mp h
    rw [List.foldlM_nil] at h
    exact pure_eq_ok.mp h ▸ (ih hatoms).addAtom hadd

/-- All atoms can be taken over just if each of them reads well. -/
theorem exists_foldlM_addAtom_iff :
    (∃ c, atoms.foldlM Controller.addAtom (empty number n) = .ok c) ↔ ∀ a ∈ atoms, Reads n a := by
  induction atoms using List.reverseRecOn with
  | nil => simp [pure_eq_ok]
  | append_singleton atoms a ih =>
    simp only [List.foldlM_append, List.foldlM_cons, List.foldlM_nil, bind_eq_ok, pure_eq_ok,
      List.forall_mem_append, List.forall_mem_singleton, ← ih]
    constructor
    · rintro ⟨c, c₁, hatoms, c₂, hadd, -⟩
      have hn := (foldlM_addAtom hatoms).numVariables_eq
      exact ⟨⟨c₁, hatoms⟩, hn ▸ exists_addAtom_iff.mp ⟨c₂, hadd⟩⟩
    · rintro ⟨⟨c₁, hatoms⟩, ha⟩
      have hn := (foldlM_addAtom hatoms).numVariables_eq
      obtain ⟨c₂, hadd⟩ := exists_addAtom_iff.mpr (hn.symm ▸ ha)
      exact ⟨c₂, c₁, hatoms, c₂, hadd, rfl⟩

end Collected

/-! ### Finished controllers -/

/-- Why the atoms make no controller over `n` variables. -/
inductive Faulty (n : Nat) (atoms : List Atom) : Prop
  /-- An assignment with an argument that is no index. -/
  | holds {a : Atom} : a ∈ atoms → a.is "holds" 3 = true →
    a.index? 0 = none ∨ a.index? 1 = none ∨ a.index? 2 = none → Faulty n atoms
  /-- A policy of no index, or with an action that is no text. -/
  | policy {a : Atom} : a ∈ atoms → a.is "policy" 2 = true →
    a.index? 0 = none ∨ a.text? 1 = none → Faulty n atoms
  /-- A transition with an end that is no index, or with a tag that is no text. -/
  | transition {a : Atom} : a ∈ atoms → a.is "transition" 3 = true →
    a.index? 0 = none ∨ a.text? 1 = none ∨ a.index? 2 = none → Faulty n atoms
  | variable {a : Atom} {var : Nat} : a ∈ atoms → a.is "holds" 3 = true →
    a.index? 1 = some var → n ≤ var → Faulty n atoms
  | noStates : (∀ a ∈ atoms, a.is "holds" 3 = false ∧ a.is "transition" 3 = false) → Faulty n atoms
  | noPolicy {a : Atom} {source : Nat} : a ∈ atoms → a.is "transition" 3 = true →
    a.index? 0 = some source →
    (∀ b ∈ atoms, b.is "policy" 2 = true → b.index? 0 ≠ some source) → Faulty n atoms
  | tag {a : Atom} {tag : String} : a ∈ atoms → a.is "transition" 3 = true →
    a.text? 1 = some tag → outcomeIndex? tag = none → Faulty n atoms

/-- What holds of every controller that is built. -/
structure Consistent (n : Nat) (c : Controller) : Prop where
  nonempty : c.states ≠ []
  states_increasing : IdMap.Increasing c.states
  size_eq : ∀ id s, c.state? id = some s → s.size = n
  ends : ∀ t ∈ c.transitions, t.source ∈ c.ids ∧ t.target ∈ c.ids
  hasPolicy : ∀ t ∈ c.transitions, ∃ action, c.policy? t.source = some action
  sorted : c.transitions.Pairwise fun t u => t.before u = true
  goal_mem : c.goal ∈ c.ids
  le_goal : ∀ id ∈ c.ids, id ≤ c.goal

/-- The controller is the one that the atoms of the answer describe. -/
structure Describes (answer : Answer) (n : Nat) (c : Controller) : Prop where
  answer_eq : c.answer = answer.number
  numVariables_eq : c.numVariables = n
  mem_ids_iff : ∀ id, id ∈ c.ids ↔ Names answer.atoms id
  value?_iff : ∀ id s, c.state? id = some s → ∀ var value,
    s.value? var = some value ↔ LastGiven (fun a => a.Holds id var) answer.atoms value
  policy?_iff : ∀ id action,
    c.policy? id = some action ↔ LastGiven (fun a => a.Chooses id) answer.atoms action
  mem_transitions_iff : ∀ t, t ∈ c.transitions ↔ ∃ a ∈ answer.atoms, a.Moves t

theorem mem_ids_iff {id : Nat} : id ∈ c.ids ↔ ∃ s, c.state? id = some s := by
  rw [ids, ← IdMap.isSome_lookup_iff, Option.isSome_iff_exists]
  rfl

theorem ids_eq_nil_iff : c.ids = [] ↔ c.states = [] :=
  List.map_eq_nil_iff

theorem le_goal {id : Nat} (h : id ∈ c.ids) : id ≤ c.goal := by
  have hmax : (0 :: c.ids).max? = some c.goal := List.max?_cons'
  exact (List.max?_eq_some_iff.mp hmax).2 id (List.mem_cons_of_mem 0 h)

theorem goal_mem_ids (h : c.states ≠ []) : c.goal ∈ c.ids := by
  rcases List.mem_cons.mp c.goal_mem with hgoal | hgoal
  · obtain ⟨id, hid⟩ := List.exists_mem_of_ne_nil c.ids (mt ids_eq_nil_iff.mp h)
    have hzero : id = c.goal := by
      have hle := le_goal hid
      omega
    exact hzero ▸ hid
  · exact hgoal

theorem size_eq_of_state? (h : ∀ entry ∈ c.states, entry.2.size = n) {id : Nat} {s : State}
    (hs : c.state? id = some s) : s.size = n := by
  obtain ⟨before, after, hstates, -⟩ := List.lookup_eq_some_iff.mp hs
  exact h (id, s) (by simp [hstates])

theorem Finished.consistent (h : Finished n c) : Consistent n c where
  nonempty := h.nonempty
  states_increasing := h.states_increasing
  size_eq _ _ hs := size_eq_of_state? (fun entry hentry => (h.states entry hentry).2.size_eq) hs
  ends := h.ends
  hasPolicy t ht := Option.isSome_iff_exists.mp (h.hasPolicy t ht)
  sorted := Transition.pairwise_of_isChain h.ordered
  goal_mem := goal_mem_ids h.nonempty
  le_goal _ hid := le_goal hid

section OfAnswer

variable {answer : Answer}

theorem ofAnswer_eq_ok : ofAnswer answer n = .ok c ↔
    ∃ c₀, answer.atoms.foldlM addAtom (empty answer.number n) = .ok c₀ ∧ c₀.finish = .ok c :=
  bind_eq_ok

/-- Finishing what has been collected checks that the atoms name a state, give each source of a
transition an action and have the tags of outcomes. -/
theorem Collected.exists_finish_iff {number : Nat} {atoms : List Atom}
    (h : Collected number n atoms c) : (∃ c', c.finish = .ok c') ↔
      (∃ id, Names atoms id) ∧
      ∀ a ∈ atoms, ∀ t, a.Moves t →
        (∃ b ∈ atoms, ∃ action, b.Chooses t.source action) ∧ (outcomeIndex? t.tag).isSome := by
  have hpolicy : ∀ id, (c.policy? id).isSome ↔ ∃ b ∈ atoms, ∃ action, b.Chooses id action := by
    intro id
    simp only [Option.isSome_iff_exists, h.policy?_iff]
    constructor
    · rintro ⟨action, hlast⟩
      obtain ⟨b, hb, hchooses⟩ := hlast.exists_mem
      exact ⟨b, hb, action, hchooses⟩
    · exact exists_lastGiven
  have hstates : c.states ≠ [] ↔ ∃ id, Names atoms id := by
    rw [Ne, ← ids_eq_nil_iff, List.eq_nil_iff_forall_not_mem, not_forall_not]
    simp only [h.mem_ids_iff]
  have hforall : ∀ {P : Transition → Prop}, (∀ t ∈ c.transitions, P t) ↔
      ∀ a ∈ atoms, ∀ t, a.Moves t → P t := by
    intro P
    simp only [h.mem_transitions_iff]
    exact ⟨fun hall a ha t ht => hall t ⟨a, ha, ht⟩, fun hall t ⟨a, ha, ht⟩ => hall a ha t ht⟩
  simp only [finish_eq_ok, exists_and_left, exists_eq', and_true, hstates, hforall, hpolicy]
  exact and_congr_right fun _ =>
    ⟨fun hall a ha t ht => ⟨hall.1 a ha t ht, hall.2 a ha t ht⟩,
      fun hall => ⟨fun a ha t ht => (hall a ha t ht).1, fun a ha t ht => (hall a ha t ht).2⟩⟩

/-- Atoms that are not at fault read well. -/
theorem reads_of_not_faulty {atoms : List Atom} (h : ¬ Faulty n atoms) (ha : a ∈ atoms) :
    Reads n a where
  holds his := by
    cases hid : a.index? 0 with
    | none => exact absurd (.holds ha his (.inl hid)) h
    | some id =>
      cases hvar : a.index? 1 with
      | none => exact absurd (.holds ha his (.inr (.inl hvar))) h
      | some var =>
        cases hvalue : a.index? 2 with
        | none => exact absurd (.holds ha his (.inr (.inr hvalue))) h
        | some value =>
          refine ⟨id, var, value, ⟨his, hid, hvar, hvalue⟩, Nat.lt_of_not_le fun hle => ?_⟩
          exact h (.variable ha his hvar hle)
  policy his := by
    cases hid : a.index? 0 with
    | none => exact absurd (.policy ha his (.inl hid)) h
    | some id =>
      cases haction : a.text? 1 with
      | none => exact absurd (.policy ha his (.inr haction)) h
      | some action => exact ⟨id, action, his, hid, haction⟩
  transition his := by
    cases hsource : a.index? 0 with
    | none => exact absurd (.transition ha his (.inl hsource)) h
    | some source =>
      cases htag : a.text? 1 with
      | none => exact absurd (.transition ha his (.inr (.inl htag))) h
      | some tag =>
        cases htarget : a.index? 2 with
        | none => exact absurd (.transition ha his (.inr (.inr htarget))) h
        | some target => exact ⟨⟨source, tag, target⟩, his, hsource, htag, htarget⟩

theorem not_faulty {atoms : List Atom} (hreads : ∀ a ∈ atoms, Reads n a)
    (hnames : ∃ id, Names atoms id)
    (hmoves : ∀ a ∈ atoms, ∀ t, a.Moves t →
      (∃ b ∈ atoms, ∃ action, b.Chooses t.source action) ∧ (outcomeIndex? t.tag).isSome) :
    ¬ Faulty n atoms := by
  intro hfaulty
  cases hfaulty with
  | @holds a ha his hnone =>
    obtain ⟨id, var, value, ⟨-, hid, hvar, hvalue⟩, -⟩ := (hreads a ha).holds his
    simp [hid, hvar, hvalue] at hnone
  | @policy a ha his hnone =>
    obtain ⟨id, action, -, hid, haction⟩ := (hreads a ha).policy his
    simp [hid, haction] at hnone
  | @transition a ha his hnone =>
    obtain ⟨t, -, hsource, htag, htarget⟩ := (hreads a ha).transition his
    simp [hsource, htag, htarget] at hnone
  | @«variable» a var ha his hvar hle =>
    obtain ⟨id, var', value, ⟨-, -, hvar', -⟩, hlt⟩ := (hreads a ha).holds his
    obtain rfl := Option.some.inj (hvar.symm.trans hvar')
    omega
  | noStates hnone =>
    obtain ⟨id, a, ha, ⟨var, value, hholds⟩ | ⟨t, ht, -⟩⟩ := hnames
    · exact absurd hholds.1 (by simp [(hnone a ha).1])
    · exact absurd ht.1 (by simp [(hnone a ha).2])
  | @noPolicy a source ha his hsource hnone =>
    obtain ⟨t, ht⟩ := (hreads a ha).transition his
    obtain rfl := Option.some.inj (hsource.symm.trans ht.2.1)
    obtain ⟨⟨b, hb, action, hchooses⟩, -⟩ := hmoves a ha t ht
    exact hnone b hb hchooses.1 hchooses.2.1
  | @tag a tag ha his htag hnone =>
    obtain ⟨t, ht⟩ := (hreads a ha).transition his
    obtain rfl := Option.some.inj (htag.symm.trans ht.2.2.1)
    have hsome := (hmoves a ha t ht).2
    simp [hnone] at hsome

/-- The atoms are not at fault just if they read well, name a state, give each source of a transition
an action and have the tags of outcomes. -/
theorem not_faulty_iff {atoms : List Atom} : ¬ Faulty n atoms ↔
    (∀ a ∈ atoms, Reads n a) ∧ (∃ id, Names atoms id) ∧
      ∀ a ∈ atoms, ∀ t, a.Moves t →
        (∃ b ∈ atoms, ∃ action, b.Chooses t.source action) ∧ (outcomeIndex? t.tag).isSome := by
  refine ⟨fun h => ?_, fun ⟨hreads, hnames, hmoves⟩ => not_faulty hreads hnames hmoves⟩
  have hreads : ∀ a ∈ atoms, Reads n a := fun a ha => reads_of_not_faulty h ha
  refine ⟨hreads, ?_, fun a ha t ht => ⟨?_, ?_⟩⟩
  · by_contra hnone
    refine h (.noStates fun a ha => ⟨Bool.eq_false_iff.mpr fun his => hnone ?_,
      Bool.eq_false_iff.mpr fun his => hnone ?_⟩)
    · obtain ⟨id, var, value, hholds, -⟩ := (hreads a ha).holds his
      exact ⟨id, a, ha, .inl ⟨var, value, hholds⟩⟩
    · obtain ⟨t, ht⟩ := (hreads a ha).transition his
      exact ⟨t.source, a, ha, .inr ⟨t, ht, .inl rfl⟩⟩
  · by_contra hnone
    refine h (.noPolicy ha ht.1 ht.2.1 fun b hb his hid => hnone ?_)
    obtain ⟨id, action, hchooses⟩ := (hreads b hb).policy his
    obtain rfl := Option.some.inj (hchooses.2.1.symm.trans hid)
    exact ⟨b, hb, action, hchooses⟩
  · by_contra hnone
    exact h (.tag ha ht.1 ht.2.2.1 (Option.not_isSome_iff_eq_none.mp hnone))

theorem exists_ofAnswer_iff : (∃ c, ofAnswer answer n = .ok c) ↔ ¬ Faulty n answer.atoms := by
  have hreads : (∃ c, answer.atoms.foldlM addAtom (empty answer.number n) = .ok c) ↔
      ∀ a ∈ answer.atoms, Reads n a := Collected.exists_foldlM_addAtom_iff
  simp only [ofAnswer_eq_ok]
  rw [not_faulty_iff, ← hreads]
  constructor
  · rintro ⟨c, c₀, hatoms, hfinish⟩
    exact ⟨⟨c₀, hatoms⟩, (Collected.foldlM_addAtom hatoms).exists_finish_iff.mp ⟨c, hfinish⟩⟩
  · rintro ⟨⟨c₀, hatoms⟩, hchecks⟩
    obtain ⟨c, hfinish⟩ := (Collected.foldlM_addAtom hatoms).exists_finish_iff.mpr hchecks
    exact ⟨c, c₀, hatoms, hfinish⟩

theorem Collected.valueIn_iff {number : Nat} {atoms : List Atom} (h : Collected number n atoms c)
    {id : Nat} {s : State} (hs : c.state? id = some s) (var value : Nat) :
    s.value? var = some value ↔ LastGiven (fun a => a.Holds id var) atoms value := by
  rw [← h.valueAt?_iff, valueAt?, hs]
  rfl

/-- The controller of an answer is the one that its atoms describe. -/
theorem describes_of_ofAnswer (h : ofAnswer answer n = .ok c) :
    Describes answer n c ∧ Consistent n c := by
  obtain ⟨c₀, hatoms, hfinish⟩ := ofAnswer_eq_ok.mp h
  have hc := Collected.foldlM_addAtom hatoms
  obtain ⟨hstates, hpolicy, -, rfl⟩ := finish_eq_ok.mp hfinish
  have hmem : ∀ t, t ∈ Transition.ordered c₀.transitions ↔ ∃ a ∈ answer.atoms, a.Moves t :=
    fun t => Transition.mem_ordered.trans (hc.mem_transitions_iff t)
  refine
    ⟨{ answer_eq := hc.answer_eq
       numVariables_eq := hc.numVariables_eq
       mem_ids_iff := hc.mem_ids_iff
       value?_iff := fun id s hs => hc.valueIn_iff hs
       policy?_iff := hc.policy?_iff
       mem_transitions_iff := hmem },
     { nonempty := hstates
       states_increasing := hc.states_increasing
       size_eq := fun _ _ => size_eq_of_state? hc.size_eq
       ends := fun t ht => ?_
       hasPolicy := fun t ht =>
         Option.isSome_iff_exists.mp (hpolicy t (Transition.mem_ordered.mp ht))
       sorted := Transition.pairwise_of_isChain (Transition.isChain_ordered _)
       goal_mem := goal_mem_ids hstates
       le_goal := fun _ => le_goal }⟩
  obtain ⟨a, ha, hmoves⟩ := (hmem t).mp ht
  exact ⟨(hc.mem_ids_iff _).mpr ⟨a, ha, .inr ⟨t, hmoves, .inl rfl⟩⟩,
    (hc.mem_ids_iff _).mpr ⟨a, ha, .inr ⟨t, hmoves, .inr rfl⟩⟩⟩

end OfAnswer

/-- Building a controller from an answer fails just if the atoms are at fault, and else gives what they
describe. Every controller that is built, from an answer or from a text, is consistent. -/
theorem ofAnswer_builds (n : Nat) :
    (∀ answer, (∃ fault, ofAnswer answer n = .error fault) ↔ Faulty n answer.atoms) ∧
    (∀ answer c, ofAnswer answer n = .ok c → Describes answer n c) ∧
    ∀ c, ((∃ answer, ofAnswer answer n = .ok c) ∨ ∃ text, parse text n = .ok c) →
      Consistent n c := by
  refine ⟨fun answer => ?_, fun answer c h => (describes_of_ofAnswer h).1, ?_⟩
  · rw [← not_iff_not, ← exists_ofAnswer_iff]
    cases ofAnswer answer n <;> simp
  · rintro c (⟨answer, h⟩ | ⟨text, h⟩)
    · exact (describes_of_ofAnswer h).2
    · exact (finished_of_parse h).1.consistent

end Controller

end StrongCyclic
