import StrongCyclic.Proofs.Planning.Progression

/-!
Progression along runs, compared for two states of which one knows more. What the richer state allows
the poorer one allows too, since less is there to contradict a precondition; both take over the same
values, so the result of the richer one still knows more. One step keeps this, and with it every run.
-/

namespace StrongCyclic

namespace State

/-- The first state knows whatever the second one knows, about the same variables. -/
structure Refines (s p : State) : Prop where
  size_eq : s.size = p.size
  entails : s.entails p = true

variable {s p : State}

theorem Refines.value? (h : s.Refines p) {var value : Nat} (hvalue : p.value? var = some value) :
    s.value? var = some value :=
  (entails_iff s p).mp h.entails var value hvalue

theorem Refines.consistent (h : s.Refines p) {t : State} (hs : s.consistent t = true) :
    p.consistent t = true := by
  rw [consistent_iff] at hs ⊢
  intro var a b ha hb
  exact hs var a b (h.value? ha) hb

/-- Where the update defines nothing, the refined state still has what the other one has. -/
theorem Refines.update (h : s.Refines p) (t : State) : (s.update t).Refines (p.update t) where
  size_eq := by rw [size_update, size_update, h.size_eq]
  entails := by
    refine (entails_iff ..).mpr fun var value hvalue => ?_
    rw [value?_update] at hvalue ⊢
    rw [h.size_eq]
    split at hvalue
    · next hvar =>
      rw [if_pos hvar]
      cases hdefined : t.value? var with
      | some new => rwa [hdefined, Option.some_or] at hvalue
      | none =>
        rw [hdefined, Option.none_or] at hvalue
        rw [Option.none_or, h.value? hvalue]
    · cases hvalue

end State

namespace Action

variable {a : Action} {index : Nat} {steps : List (Action × Nat)} {s p t : State}

/-- A step of the richer state is a step of the poorer one. -/
theorem progress_of_refines (h : s.Refines p) (ht : a.progress index s = some t) :
    ∃ u, a.progress index p = some u ∧ t.Refines u := by
  obtain ⟨effect, heffect, hconsistent, rfl⟩ := (progress_eq_some_iff ..).mp ht
  refine ⟨a.progressed effect p, ?_, (h.update a.precondition).update effect⟩
  exact (progress_eq_some_iff ..).mpr ⟨effect, heffect, h.consistent hconsistent, rfl⟩

/-- Progression through actions one after the other, each with the index of its effect. -/
def progressAll : List (Action × Nat) → State → Option State
  | [], s => some s
  | (a, index) :: steps, s => (a.progress index s).bind (progressAll steps)

theorem progressAll_cons :
    progressAll ((a, index) :: steps) s = some t ↔
      ∃ next, a.progress index s = some next ∧ progressAll steps next = some t := by
  rw [progressAll, Option.bind_eq_some_iff]

/-- A run of the richer state is a run of the poorer one. -/
theorem progressAll_of_refines (h : s.Refines p) (ht : progressAll steps s = some t) :
    ∃ u, progressAll steps p = some u ∧ t.Refines u := by
  induction steps generalizing s p with
  | nil =>
    cases ht
    exact ⟨p, rfl, h⟩
  | cons step steps ih =>
    obtain ⟨a, index⟩ := step
    obtain ⟨next, hnext, hrun⟩ := progressAll_cons.mp ht
    obtain ⟨next', hnext', hrefines⟩ := progress_of_refines h hnext
    obtain ⟨u, hu, htu⟩ := ih hrefines hrun
    exact ⟨u, progressAll_cons.mpr ⟨next', hnext', hu⟩, htu⟩

/-- Progression is monotone along runs: through whatever actions a state progresses, a state that it
entails progresses as well, to a state that the result entails. -/
theorem exists_progressAll_of_entails (hsize : s.size = p.size) (hentails : s.entails p = true)
    (ht : progressAll steps s = some t) :
    ∃ u, progressAll steps p = some u ∧ t.entails u = true := by
  obtain ⟨u, hu, hrefines⟩ := progressAll_of_refines ⟨hsize, hentails⟩ ht
  exact ⟨u, hu, hrefines.entails⟩

/-- Behind an open door there is a key; whoever has it locks the door. The lamp of the room, the second
of the three variables, is left alone. -/
def takingAndLocking : List (Action × Nat) :=
  [(.ofChanges ⟨"take", "take", none, []⟩ (.ofPairs 3 [(0, 1)]) [⟨2, none, 1⟩] 1 [2, 2, 2], 0),
    (.ofChanges ⟨"lock", "lock", none, []⟩ (.ofPairs 3 [(2, 1)]) [⟨0, some 1, 0⟩] 1 [2, 2, 2], 0)]

theorem exists_progressAll_of_entails_locking :
    (State.ofValues [1, 0, 0]).entails (.ofPairs 3 [(2, 0)]) = true ∧
      progressAll takingAndLocking (.ofValues [1, 0, 0]) = some (.ofValues [0, 0, 1]) ∧
      progressAll takingAndLocking (.ofPairs 3 [(2, 0)]) = some (.ofPairs 3 [(0, 0), (2, 1)]) ∧
      ∃ u, progressAll takingAndLocking (.ofPairs 3 [(2, 0)]) = some u ∧
        (State.ofValues [0, 0, 1]).entails u = true := by
  have hentails : (State.ofValues [1, 0, 0]).entails (.ofPairs 3 [(2, 0)]) = true := by decide
  have hsize : (State.ofValues [1, 0, 0]).size = (State.ofPairs 3 [(2, 0)]).size := by decide
  have hrun : progressAll takingAndLocking (.ofValues [1, 0, 0]) = some (.ofValues [0, 0, 1]) := by
    decide
  exact ⟨hentails, hrun, by decide, exists_progressAll_of_entails hsize hentails hrun⟩

end Action

end StrongCyclic
