import StrongCyclic.Proofs.Planning.Progression

/-!
Regression against progression. Both work slot by slot, on what the precondition requires of a
variable, what the effect produces for it and what the state has there. The regressed state
describes all states from which the action leads to a given state. It describes more than these just
if the given state wants another value than the precondition requires of a variable that the effect
does not set. After a progression, regression gives back what is required, forgets what else has
been produced and keeps the rest.
-/

namespace StrongCyclic.Action

/-- What regression through an effect makes of a state. -/
def regressed (a : Action) (effect t : State) : State :=
  ⟨t.slots.mapIdx fun var slot =>
    regressSlot (a.precondition.value? var) (effect.value? var) slot⟩

variable {n index : Nat} {a : Action} {effect s t next : State}

theorem regress_eq_some_iff (a : Action) (index : Nat) (t r : State) :
    a.regress index t = some r ↔
      ∃ effect, a.effects[index]? = some effect ∧ t.consistent effect = true ∧
        a.regressed effect t = r := by
  unfold regress
  cases a.effects[index]? <;> simp [regressed]

@[simp] theorem size_regressed (a : Action) (effect t : State) :
    (a.regressed effect t).size = t.size := by
  simp [regressed, State.size]

theorem Over.value?_regressed (ha : a.Over n) (heffect : effect ∈ a.effects) (ht : t.size = n)
    (var : Nat) :
    (a.regressed effect t).value? var =
      regressSlot (a.precondition.value? var) (effect.value? var) (t.value? var) := by
  by_cases hvar : var < t.slots.length
  · simp [regressed, State.value?, hvar]
  · have hle : n ≤ var := ht ▸ Nat.le_of_not_lt hvar
    rw [State.value?_eq_none_of_size_le (by rwa [size_regressed, ht]),
      State.value?_eq_none_of_size_le (by rwa [ha.precondition]),
      State.value?_eq_none_of_size_le (by rwa [ha.effects effect heffect]),
      State.value?_eq_none_of_size_le (by rwa [ht])]
    rfl

/-! ### One slot -/

/-- The slot has what is required, and holds what is wanted after the effect. -/
def SlotReaches (required produced held wanted : Option Nat) : Prop :=
  (∀ value, required = some value → held = some value) ∧
    ∀ value, wanted = some value → produced.or held = some value

/-- What is wanted does not contradict what is produced, and the slot has what regression makes of
it. -/
def SlotRegresses (required produced held wanted : Option Nat) : Prop :=
  (∀ value value', wanted = some value → produced = some value' → value = value') ∧
    ∀ value, regressSlot required produced wanted = some value → held = some value

/-- Where nothing is produced, what is wanted does not contradict what is required. -/
def SlotTolerates (required produced wanted : Option Nat) : Prop :=
  produced = none →
    ∀ value value', required = some value → wanted = some value' → value = value'

theorem slotReaches_iff (required produced held wanted : Option Nat) :
    SlotReaches required produced held wanted ↔
      SlotRegresses required produced held wanted ∧ SlotTolerates required produced wanted := by
  constructor
  · rintro ⟨hrequired, hwanted⟩
    refine ⟨⟨?_, fun value hvalue => ?_⟩, ?_⟩
    · rintro value value' rfl rfl
      exact Option.some.inj (hwanted value rfl).symm
    · cases required with
      | some required => exact hrequired value hvalue
      | none =>
        rw [regressSlot] at hvalue
        split at hvalue
        · cases hvalue
        · next hopen =>
          cases produced with
          | none => exact hwanted value hvalue
          | some produced => exact absurd ⟨rfl, (hwanted value hvalue).trans hvalue.symm⟩ hopen
    · rintro rfl value value' rfl rfl
      exact Option.some.inj ((hrequired value rfl).symm.trans (hwanted value' rfl))
  · rintro ⟨⟨hagrees, hheld⟩, htolerates⟩
    cases required with
    | some required =>
      have hrequired : held = some required := hheld required rfl
      refine ⟨fun value hvalue => hvalue ▸ hrequired, fun value hvalue => ?_⟩
      cases produced with
      | some produced => rw [Option.some_or, hagrees value produced hvalue rfl]
      | none =>
        -- the effect leaves what is required, which regression does not compare with what is wanted
        rw [Option.none_or, hrequired, htolerates rfl required value rfl hvalue]
    | none =>
      refine ⟨nofun, fun value hvalue => ?_⟩
      cases produced with
      | some produced => rw [Option.some_or, hagrees value produced hvalue rfl]
      | none => exact hheld value (by simpa [regressSlot] using hvalue)

/-- Behind a progression, regression has what is required, and else what was there before unless
something has been produced. -/
theorem regressSlot_progressed (required produced held : Option Nat) :
    regressSlot required produced (produced.or (required.or held)) =
      required.or (if produced.isSome then none else held) := by
  cases required <;> cases produced <;> simp [regressSlot]

/-! ### Exactness -/

theorem Over.reaches_iff (ha : a.Over n) (hs : s.size = n) :
    (s.entails a.precondition = true ∧
        ∃ next, a.progress index s = some next ∧ next.entails t = true) ↔
      ∃ effect, a.effects[index]? = some effect ∧ ∀ var,
        SlotReaches (a.precondition.value? var) (effect.value? var) (s.value? var)
          (t.value? var) := by
  constructor
  · rintro ⟨hpre, next, hnext, hentails⟩
    obtain ⟨effect, heffect, -, hnext⟩ := (progress_eq_some_iff ..).mp hnext
    have hvalue := ha.value?_progressed_of_entails (List.mem_of_getElem? heffect) hs hpre
    rw [← hnext, ← progressed, State.entails_iff] at hentails
    rw [State.entails_iff] at hpre
    refine ⟨effect, heffect, fun var => ⟨hpre var, ?_⟩⟩
    rw [← hvalue]
    exact hentails var
  · rintro ⟨effect, heffect, hslots⟩
    have hpre : s.entails a.precondition = true :=
      (State.entails_iff ..).mpr fun var => (hslots var).1
    refine ⟨hpre, a.progressed effect s, ?_, ?_⟩
    · exact (progress_eq_some_iff ..).mpr
        ⟨effect, heffect, State.consistent_of_entails hpre, rfl⟩
    · refine (State.entails_iff ..).mpr fun var => ?_
      rw [ha.value?_progressed_of_entails (List.mem_of_getElem? heffect) hs hpre]
      exact (hslots var).2

theorem Over.regresses_iff (ha : a.Over n) (ht : t.size = n) :
    (∃ r, a.regress index t = some r ∧ s.entails r = true) ↔
      ∃ effect, a.effects[index]? = some effect ∧ ∀ var,
        SlotRegresses (a.precondition.value? var) (effect.value? var) (s.value? var)
          (t.value? var) := by
  constructor
  · rintro ⟨r, hr, hentails⟩
    obtain ⟨effect, heffect, hconsistent, rfl⟩ := (regress_eq_some_iff ..).mp hr
    rw [State.entails_iff] at hentails
    refine ⟨effect, heffect, fun var => ⟨(State.consistent_iff ..).mp hconsistent var, ?_⟩⟩
    rw [← ha.value?_regressed (List.mem_of_getElem? heffect) ht]
    exact hentails var
  · rintro ⟨effect, heffect, hslots⟩
    refine ⟨a.regressed effect t, ?_, ?_⟩
    · refine (regress_eq_some_iff ..).mpr ⟨effect, heffect, ?_, rfl⟩
      exact (State.consistent_iff ..).mpr fun var => (hslots var).1
    · refine (State.entails_iff ..).mpr fun var => ?_
      rw [ha.value?_regressed (List.mem_of_getElem? heffect) ht]
      exact (hslots var).2

/-- The state does not want another value than the precondition requires of a variable that the
effect does not set. -/
def Tolerates (a : Action) (index : Nat) (t : State) : Prop :=
  ∀ effect, a.effects[index]? = some effect → ∀ var,
    SlotTolerates (a.precondition.value? var) (effect.value? var) (t.value? var)

/-- An action leads from a state with its precondition to a state with the wanted values just if the
former has the values that regression makes of the wanted ones, and no other value is wanted than
the precondition requires where the effect sets none. -/
theorem reaches_iff_regresses (ha : a.Over n) (hs : s.size = n) (ht : t.size = n) :
    (s.entails a.precondition = true ∧
        ∃ next, a.progress index s = some next ∧ next.entails t = true) ↔
      (∃ r, a.regress index t = some r ∧ s.entails r = true) ∧ a.Tolerates index t := by
  rw [ha.reaches_iff hs, ha.regresses_iff ht]
  simp only [slotReaches_iff, forall_and]
  constructor
  · rintro ⟨effect, heffect, hregresses, htolerates⟩
    refine ⟨⟨effect, heffect, hregresses⟩, fun effect' heffect' => ?_⟩
    rw [Option.some.inj (heffect'.symm.trans heffect)]
    exact htolerates
  · rintro ⟨⟨effect, heffect, hregresses⟩, htolerates⟩
    exact ⟨effect, heffect, hregresses, htolerates effect heffect⟩

/-- Lighting the lamp behind an open door: of the two variables, the door has to be open and the
lamp gets lit. -/
def lighting : Action :=
  .ofChanges ⟨"light", "light", none, []⟩ (.ofPairs 2 [(0, 1)]) [⟨1, none, 1⟩] 1 [2, 2]

theorem over_lighting : lighting.Over 2 :=
  ⟨by decide, by decide⟩

theorem reaches_iff_regresses_lighting :
    lighting.Over 2 ∧ lighting.Tolerates 0 (.ofValues [1, 1]) ∧
      lighting.regress 0 (.ofValues [1, 1]) = some (.ofPairs 2 [(0, 1)]) ∧
      ∃ next, lighting.progress 0 (.ofValues [1, 0]) = some next ∧
        next.entails (.ofValues [1, 1]) = true := by
  have hregress : lighting.regress 0 (.ofValues [1, 1]) = some (.ofPairs 2 [(0, 1)]) := by decide
  have htolerates : lighting.Tolerates 0 (.ofValues [1, 1]) := by
    intro effect heffect var
    cases heffect
    match var with
    | 0 => intro _ value value' h h'; cases h; cases h'; rfl
    | 1 => intro h; cases h
    | var + 2 => intro _ value value' h; cases h
  have hentails : (State.ofValues [1, 0]).entails (.ofPairs 2 [(0, 1)]) = true := by decide
  obtain ⟨-, hnext⟩ := (reaches_iff_regresses over_lighting rfl rfl).mpr
    ⟨⟨_, hregress, hentails⟩, htolerates⟩
  exact ⟨over_lighting, htolerates, hregress, hnext⟩

/-- A regressed state may describe states from which the action does not lead to the given one: no
state from which the lamp is lit ends with the door closed, but regression drops the closed door for
the open one that lighting requires. -/
theorem not_forall_reaches_iff_regress :
    ¬ ∀ (n index : Nat) (a : Action) (s t : State), a.Over n → s.size = n → t.size = n →
      s.isPartial = false →
      ((∃ r, a.regress index t = some r ∧ s.entails r = true) ↔
        s.entails a.precondition = true ∧
          ∃ next, a.progress index s = some next ∧ next.entails t = true) := by
  intro hall
  have hregress : lighting.regress 0 (.ofValues [0, 1]) = some (.ofPairs 2 [(0, 1)]) := by decide
  have hprogress : lighting.progress 0 (.ofValues [1, 0]) = some (.ofValues [1, 1]) := by decide
  obtain ⟨-, next, hnext, hentails⟩ := (hall 2 0 lighting (.ofValues [1, 0]) (.ofValues [0, 1])
    over_lighting rfl rfl rfl).mp ⟨_, hregress, by decide⟩
  rw [hprogress] at hnext
  cases hnext
  exact absurd hentails (by decide)

/-! ### Regression after progression -/

/-- The state has the precondition, leaves open what else the effect sets, and is the same as
another one elsewhere. -/
structure Restores (a : Action) (effect s r : State) : Prop where
  required : ∀ var value, a.precondition.value? var = some value → r.value? var = some value
  forgotten : ∀ var, a.precondition.value? var = none → effect.value? var ≠ none →
    r.value? var = none
  kept : ∀ var, a.precondition.value? var = none → effect.value? var = none →
    r.value? var = s.value? var

theorem Over.restores (ha : a.Over n) (heffect : effect ∈ a.effects) (hs : s.size = n) :
    a.Restores effect s (a.regressed effect (a.progressed effect s)) := by
  have hvalue : ∀ var, (a.regressed effect (a.progressed effect s)).value? var =
      (a.precondition.value? var).or
        (if (effect.value? var).isSome then none else s.value? var) := by
    intro var
    rw [ha.value?_regressed heffect (by rwa [size_progressed]), ha.value?_progressed heffect hs,
      regressSlot_progressed]
  refine ⟨fun var value hrequired => ?_, fun var hrequired hproduced => ?_,
    fun var hrequired hproduced => ?_⟩
  · rw [hvalue, hrequired, Option.some_or]
  · rw [hvalue, hrequired, if_pos (Option.isSome_iff_ne_none.mpr hproduced), Option.none_or]
  · rw [hvalue, hrequired, hproduced]
    rfl

/-- What is restored agrees with the state before, but for what the effect alone sets. -/
theorem Restores.agrees {r : State} (h : a.Restores effect s r)
    (hs : s.consistent a.precondition = true) {var value : Nat} (hvalue : s.value? var = some value)
    (hset : effect.value? var ≠ none → a.precondition.value? var ≠ none) :
    r.value? var = some value := by
  cases hrequired : a.precondition.value? var with
  | none =>
    have hproduced : effect.value? var = none := by
      by_contra hne
      exact hset hne hrequired
    rw [h.kept var hrequired hproduced, hvalue]
  | some required =>
    rw [(State.consistent_iff ..).mp hs var value required hvalue hrequired]
    exact h.required var required hrequired

/-- From what is restored, progression leads to the same state as from the state before. -/
theorem Restores.progressed_eq {r : State} (h : a.Restores effect s r) (ha : a.Over n)
    (heffect : effect ∈ a.effects) (hs : s.size = n) (hr : r.size = n) :
    a.progressed effect r = a.progressed effect s := by
  refine State.eq_of_value? (by rw [size_progressed, size_progressed, hr, hs]) fun var => ?_
  rw [ha.value?_progressed heffect hr, ha.value?_progressed heffect hs]
  cases hproduced : effect.value? var with
  | some produced => rw [Option.some_or, Option.some_or]
  | none =>
    cases hrequired : a.precondition.value? var with
    | some required => rw [Option.some_or, Option.some_or]
    | none => rw [h.kept var hrequired hproduced]

/-- Regressing what progression has made of a state succeeds. The result has the precondition,
leaves the other variables of the effect undefined and is the state before elsewhere; so it agrees
with that state where the effect does not set a variable without a precondition, and progression
leads from it to the same state again. -/
theorem regress_progress (ha : a.Over n) (hs : s.size = n) (h : a.progress index s = some next) :
    ∃ effect r, a.effects[index]? = some effect ∧ a.regress index next = some r ∧
      a.Restores effect s r ∧
      (∀ var value, s.value? var = some value →
        (effect.value? var ≠ none → a.precondition.value? var ≠ none) →
        r.value? var = some value) ∧
      a.progress index r = some next := by
  obtain ⟨effect, heffect, hconsistent, hnext⟩ := (progress_eq_some_iff ..).mp h
  have hmem : effect ∈ a.effects := List.mem_of_getElem? heffect
  have hrestores := ha.restores hmem hs
  rw [← progressed] at hnext
  rw [hnext] at hrestores
  have hsize : next.size = n := by rw [← hnext, size_progressed, hs]
  refine ⟨effect, a.regressed effect next, heffect, ?_, hrestores, ?_, ?_⟩
  -- what progression comes to has the values of the effect, so it does not contradict it
  · refine (regress_eq_some_iff ..).mpr ⟨effect, heffect, ?_, rfl⟩
    refine (State.consistent_iff ..).mpr fun var value produced hvalue hproduced => ?_
    rw [← hnext, ha.value?_progressed hmem hs, hproduced] at hvalue
    exact (Option.some.inj hvalue).symm
  · intro var value hvalue hset
    exact hrestores.agrees hconsistent hvalue hset
  · refine (progress_eq_some_iff ..).mpr ⟨effect, heffect, ?_, ?_⟩
    · exact State.consistent_of_entails ((State.entails_iff ..).mpr hrestores.required)
    · rw [← progressed, hrestores.progressed_eq ha hmem hs (by rw [size_regressed, hsize]), hnext]

theorem regress_progress_lighting :
    lighting.Over 2 ∧ lighting.progress 0 (.undefined 2) = some (.ofValues [1, 1]) ∧
      ∃ r, lighting.regress 0 (.ofValues [1, 1]) = some r ∧ r.value? 0 = some 1 ∧
        r.value? 1 = none ∧ lighting.progress 0 r = some (.ofValues [1, 1]) := by
  have hprogress : lighting.progress 0 (.undefined 2) = some (.ofValues [1, 1]) := by decide
  obtain ⟨effect, r, heffect, hregress, hrestores, -, hagain⟩ :=
    regress_progress over_lighting rfl hprogress
  cases heffect
  exact ⟨over_lighting, hprogress, r, hregress, hrestores.required 0 1 (by decide),
    hrestores.forgotten 1 (by decide) (by decide), hagain⟩

end StrongCyclic.Action
