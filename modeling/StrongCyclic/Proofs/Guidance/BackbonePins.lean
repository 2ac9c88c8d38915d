import Mathlib.Data.List.Range
import StrongCyclic.Guidance.Detection
import StrongCyclic.Proofs.Collection.Canonical
import StrongCyclic.Proofs.Collection.Grouped
import StrongCyclic.Proofs.Fallible

/-!
What the strict constraints of a backbone pin down. The steps of the plan are numbered by their place,
whatever numbers they have in the answer; the answer decides their order only. Each step is pinned to
the controller state of its place, with the transition to the next place, and the last one with the
transition to the goal state. So the pins are one simple path, and the states of the backbone are the
states on it.
-/

namespace StrongCyclic

/-- What one of the strict constraints says of the controller. -/
inductive Pin where
  /-- In the state the action is taken. -/
  | policy (state : Nat) (action : String)
  /-- The outcome with the tag leads from the state to another one, or to the goal state. -/
  | transition (source : Nat) (tag : String) (target : Option Nat)
  /-- The states up to the given one belong to the backbone. -/
  | states (last : Nat)
  /-- The goal state belongs to the backbone. -/
  | goal

namespace Pin

/-- The line of the constraint. -/
def line : Pin → String
  | policy state action => "policy(" ++ toString state ++ ", \"" ++ action ++ "\")."
  | transition source tag target =>
    "transition(" ++ toString source ++ ", \"" ++ tag ++ "\", " ++
      match target with
      | some state => toString state ++ ")."
      | none => "X) :- goalState(X)."
  | states last => "backboneState(0.." ++ toString last ++ ")."
  | goal => "backboneState(X) :- goalState(X)."

theorem line_transition_some (source : Nat) (tag : String) (target : Nat) :
    (transition source tag (some target)).line =
      "transition(" ++ toString source ++ ", \"" ++ tag ++ "\", " ++ toString target ++ ")." :=
  (String.append_assoc ..).symm

/-- The state of a pinned action and the action. -/
def policy? : Pin → Option (Nat × String)
  | policy state action => some (state, action)
  | _ => none

/-- The two ends of a pinned transition; `none` is the goal state. -/
def edge? : Pin → Option (Option Nat × Option Nat)
  | transition source _ target => some (some source, target)
  | _ => none

/-- The tag of a pinned transition. -/
def tag? : Pin → Option String
  | transition _ tag _ => some tag
  | _ => none

/-- The states that are said to belong to the backbone. -/
def covered : Pin → List (Option Nat)
  | states last => (List.range (last + 1)).map some
  | goal => [none]
  | _ => []

end Pin

namespace Backbone

/-- The controller states from a place of the plan on; `none` is the goal state. -/
def pathFrom (state : Nat) (steps : List BackboneStep) : List (Option Nat) :=
  (List.range' state steps.length).map some ++ [none]

/-- The controller states along the plan. -/
def path (b : Backbone) : List (Option Nat) :=
  pathFrom 0 b.steps

/-- The pins of the steps, the first of which belongs to `state`. -/
def stepPins (state : Nat) : List BackboneStep → List Pin
  | [] => []
  | step :: rest =>
    .policy state step.action ::
      .transition state step.tag (if rest = [] then none else some (state + 1)) ::
        stepPins (state + 1) rest

/-- The pins of a plan. -/
def pins (b : Backbone) : List Pin :=
  stepPins 0 b.steps ++ (if b.steps = [] then [] else [.states (b.length - 1)]) ++ [.goal]

section Steps

variable (state : Nat) (step : BackboneStep) (steps rest : List BackboneStep)

theorem pathFrom_cons :
    pathFrom state (step :: rest) = some state :: pathFrom (state + 1) rest := by
  rw [pathFrom, List.length_cons, List.range'_succ]
  rfl

theorem head?_pathFrom :
    (pathFrom state steps).head? = some (if steps = [] then none else some state) := by
  cases steps with
  | nil => rfl
  | cons step rest =>
    rw [pathFrom_cons]
    rfl

theorem map_line_stepPins : (stepPins state steps).map Pin.line = pinsFrom state steps := by
  induction steps generalizing state with
  | nil => rfl
  | cons step rest ih =>
    rw [stepPins, pinsFrom, List.map_cons, List.map_cons, ih]
    by_cases hlast : rest = []
    · subst hlast
      rfl
    · rw [if_neg hlast, if_neg hlast, Pin.line_transition_some]
      rfl

theorem policies_stepPins :
    (stepPins state steps).filterMap Pin.policy? =
      (steps.zipIdx state).map fun entry => (entry.2, entry.1.action) := by
  induction steps generalizing state with
  | nil => rfl
  | cons step rest ih =>
    rw [List.zipIdx_cons, List.map_cons, ← ih]
    rfl

theorem edges_stepPins :
    (stepPins state steps).filterMap Pin.edge? =
      (pathFrom state steps).zip (pathFrom state steps).tail := by
  induction steps generalizing state with
  | nil => rfl
  | cons step rest ih =>
    obtain ⟨next, hnext⟩ := List.head?_eq_some_iff.mp (head?_pathFrom (state + 1) rest)
    have hedge : (pathFrom state (step :: rest)).zip (pathFrom (state + 1) rest) =
        (some state, if rest = [] then none else some (state + 1)) ::
          (pathFrom (state + 1) rest).zip (pathFrom (state + 1) rest).tail := by
      rw [pathFrom_cons, hnext, List.zip_cons_cons, List.tail_cons]
    rw [pathFrom_cons, List.tail_cons, ← pathFrom_cons state step rest, hedge, ← ih]
    rfl

theorem tags_stepPins :
    (stepPins state steps).filterMap Pin.tag? = steps.map BackboneStep.tag := by
  induction steps generalizing state with
  | nil => rfl
  | cons step rest ih =>
    rw [List.map_cons, ← ih (state + 1)]
    rfl

theorem covered_stepPins : (stepPins state steps).flatMap Pin.covered = [] := by
  induction steps generalizing state with
  | nil => rfl
  | cons step rest ih =>
    rw [← ih (state + 1)]
    rfl

end Steps

variable {b : Backbone} {answer : Answer}

theorem mem_path {state : Nat} : some state ∈ b.path ↔ state < b.length := by
  simp [path, pathFrom, length]

/-- The strict constraints of a plan are pins that follow one simple path. -/
structure PinsPath (b : Backbone) : Prop where
  written : b.strictConstraints = Text.unlines (b.pins.map Pin.line)
  /-- Each state of the plan has the action of its step, in the order of the plan. -/
  policies : b.pins.filterMap Pin.policy? =
    b.steps.zipIdx.map fun entry => (entry.2, entry.1.action)
  /-- Each state of the plan has one transition, to the next state on the path. -/
  edges : b.pins.filterMap Pin.edge? = b.path.zip b.path.tail
  tags : b.pins.filterMap Pin.tag? = b.steps.map BackboneStep.tag
  simple : b.path.Nodup
  covered : b.pins.flatMap Pin.covered = b.path

theorem pinsPath (h : b.steps ≠ []) : b.PinsPath where
  written := by
    rw [pins, if_neg h, strictConstraints, if_neg h, List.map_append, List.map_append,
      map_line_stepPins]
    rfl
  policies := by simp [pins, h, policies_stepPins, Pin.policy?]
  edges := by simp [pins, h, edges_stepPins, Pin.edge?, path]
  tags := by simp [pins, h, tags_stepPins, Pin.tag?]
  simple := by
    rw [path, pathFrom, List.nodup_append]
    simp [(List.nodup_range' (s := 0) (n := b.steps.length)).map (Option.some_injective Nat)]
  covered := by
    have hlength : b.steps.length - 1 + 1 = b.steps.length :=
      Nat.sub_add_cancel (List.length_pos_iff.mpr h)
    rw [pins, if_neg h, List.flatMap_append, List.flatMap_append, covered_stepPins]
    simp [Pin.covered, path, pathFrom, length, hlength, List.range_eq_range']

/-- The plan consists of the steps, ordered by their numbers; steps with one number keep their
order. -/
structure Orders (b : Backbone) (found : List BackboneStep) : Prop where
  perm : b.steps.Perm found
  ordered : b.steps.Pairwise (·.step ≤ ·.step)
  stable : ∀ number, b.steps.filter (·.step = number) = found.filter (·.step = number)

/-- The plan of an answer consists of the steps of its policy atoms. -/
theorem orders_of_ofAnswer (h : ofAnswer answer = .ok b) :
    ∃ found, (answer.atomsOf "policy" 3).mapM stepOf = .ok found ∧
      b.Orders (found.filterMap id) := by
  obtain ⟨found, hfound, hb⟩ := Fallible.bind_eq_ok.mp h
  obtain rfl := Except.ok.inj hb
  exact ⟨found, hfound, Sorted.sortBy_perm _ _, Sorted.pairwise_sortBy _, Sorted.filter_sortBy _⟩

theorem ofOutput_eq_ok {out : SolverOutput} (h : ofOutput out = .ok b) (hsteps : b.steps ≠ []) :
    ∃ answer, out.lastAnswer? = some answer ∧ out.isSatisfiable = true ∧
      ofAnswer answer = .ok b := by
  unfold ofOutput at h
  split at h
  · next answer hanswer =>
    split at h
    · next hsat => exact ⟨answer, hanswer, hsat, Fallible.mapError_eq_ok.mp h⟩
    · exact absurd (congrArg steps (Except.ok.inj h)).symm hsteps
  · exact absurd (congrArg steps (Except.ok.inj h)).symm hsteps

end Backbone

end StrongCyclic
