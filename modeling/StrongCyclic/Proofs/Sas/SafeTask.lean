import StrongCyclic.Proofs.Encoding.EffectMeaning
import StrongCyclic.Proofs.Verification.LookUps

/-!
A task that is read from a file is safe to use. All its states keep to the domains, so the encoding,
which looks up the variables that the initial state defines, finds each of them, and verification
looks at no place outside its lists.
-/

namespace StrongCyclic

namespace Encoding

/-- The values that a variable does not have in the initial state, unless the variable is not in the
list of variables. -/
def otherLines? (t : Task) (pair : Nat × Nat) : Option (List Line) :=
  (t.vars[pair.1]?).map fun v =>
    ((List.range v.domainSize).filter (· ≠ pair.2)).map (Line.failsInitially pair.1)

/-- The values that do not hold in the initial state, every variable being looked up. -/
def negativeLines? (t : Task) : Option (List Line) :=
  (t.initial.pairs.mapM (otherLines? t)).map (·.flatten ++ [.blank])

/-- The initial state, every variable being looked up. -/
def initialLines? (t : Task) : InitialValues → Option (List Line)
  | .positive => some (positiveLines t)
  | .negative => negativeLines? t
  | .both => do
    let negative ← negativeLines? t
    return positiveLines t ++ negative

/-- The lines of an instance, unless a variable of the initial state is not in the list of
variables. -/
def instanceLines? (t : Task) (options : Options) (purpose : Purpose) : Option (List Line) := do
  let initial ← initialLines? t options.initialValues
  return variableLines t.vars ++ mutexLines t ++ initial ++ goalLines t purpose ++
    actionLines t options

variable {t : Task}

theorem otherLines?_eq {pair : Nat × Nat} (h : pair.1 < t.vars.length) :
    otherLines? t pair = some (((List.range (t.domainSizes.getD pair.1 0)).filter (· ≠ pair.2)).map
      (Line.failsInitially pair.1)) := by
  simp [otherLines?, Task.domainSizes, List.getD_eq_getElem?_getD, h]

theorem mapM_otherLines?_eq {pairs : List (Nat × Nat)}
    (h : ∀ pair ∈ pairs, pair.1 < t.vars.length) :
    pairs.mapM (otherLines? t) = some (pairs.map fun pair =>
      ((List.range (t.domainSizes.getD pair.1 0)).filter (· ≠ pair.2)).map
        (Line.failsInitially pair.1)) := by
  induction pairs with
  | nil => rfl
  | cons pair pairs ih =>
    obtain ⟨hpair, hpairs⟩ := List.forall_mem_cons.mp h
    rw [List.mapM_cons, otherLines?_eq hpair, ih hpairs]
    rfl

theorem negativeLines?_eq (h : t.initial.InDomains t.domainSizes) :
    negativeLines? t = some (negativeLines t) := by
  have hlt : ∀ pair ∈ t.initial.pairs, pair.1 < t.vars.length := by
    rintro ⟨var, value⟩ hpair
    have hvar := State.lt_size_of_value? ((State.mem_pairs _ _ _).mp hpair)
    rwa [h.size_eq, Task.length_domainSizes] at hvar
  rw [negativeLines?, mapM_otherLines?_eq hlt, negativeLines, List.flatMap_def]
  rfl

theorem initialLines?_eq (h : t.initial.InDomains t.domainSizes) (values : InitialValues) :
    initialLines? t values = some (initialLines t values) := by
  cases values with
  | positive => rfl
  | negative => exact negativeLines?_eq h
  | both =>
    rw [initialLines?, negativeLines?_eq h]
    rfl

theorem instanceLines?_eq (h : t.initial.InDomains t.domainSizes) (options : Options)
    (purpose : Purpose) : instanceLines? t options purpose = some (instanceLines t options purpose) := by
  rw [instanceLines?, initialLines?_eq h]
  rfl

end Encoding

namespace Sas

/-- Every text that is read gives a task whose states keep to the domains, with the initial state full,
the add and delete lists derived and no operator without outcomes; the encoding finds every variable
that it looks up, and so does verification with every node, whatever the controller. -/
theorem parse_safeTask {text : String} {t : Task} (h : parse text = .ok t) :
    t.InDomains ∧ (∀ a, t.HasAction a → ∀ s ∈ a.strips, s.InDomains t.domainSizes) ∧
      (∀ options purpose, Encoding.instanceLines? t options purpose =
        some (Encoding.instanceLines t options purpose)) ∧
      ∀ c, Verification.verify? c t = some (Verification.verify c t) := by
  have ht := inDomains_of_parse h
  refine ⟨ht, fun a ha => (ht.actions a ha).strips_inDomains, fun options purpose => ?_, fun c => ?_⟩
  · exact Encoding.instanceLines?_eq ht.initial.toInDomains options purpose
  · exact Verification.verify?_eq c t

theorem parse_safeTask_door :
    Verification.door.InDomains ∧ (∀ options purpose,
      Encoding.instanceLines? Verification.door options purpose =
        some (Encoding.instanceLines Verification.door options purpose)) ∧
      ∀ c, Verification.verify? c Verification.door =
        some (Verification.verify c Verification.door) := by
  obtain ⟨hdomains, -, hencode, hverify⟩ := parse_safeTask Encoding.parse_stickingDoorFile
  exact ⟨hdomains, hencode, hverify⟩

end Sas

end StrongCyclic
