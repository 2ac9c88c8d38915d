import Mathlib.Algebra.BigOperators.Group.Finset.Basic
import Mathlib.Algebra.Order.BigOperators.Group.Finset
import Mathlib.Data.Set.Card
import StrongCyclic.Proofs.Collection.Grouped
import StrongCyclic.Proofs.Fallible
import StrongCyclic.Proofs.Verification.Exactness

/-!
The worklist of the verification comes to an end. `Rounds` is the loop without a bound on its rounds,
with a record of the places that have been taken off the queue and of those that have been put into
it. The queue is first in, first out, and a place is put into it just when its pair is found, so the
record of the queue counts the nodes from zero up. The nodes are different pairs of runs, of which
there are no more than controller states and values for the variables allow.
-/

namespace StrongCyclic.Verification

variable {c : Controller} {t : Task}

/-! ### The bound -/

/-- The task mentions the value for the variable: in the initial state, or in a precondition or an
effect of an action. -/
def Mentions (t : Task) (var value : Nat) : Prop :=
  t.initial.value? var = some value ∨
    ∃ key outcomes, (key, outcomes) ∈ t.groups ∧ ∃ outcome ∈ outcomes,
      ∃ s ∈ outcome.precondition :: outcome.effects, s.value? var = some value

theorem mem_valuesOf_iff {var value : Nat} : value ∈ valuesOf t var ↔ Mentions t var value := by
  simp only [valuesOf, List.mem_eraseDups, List.mem_filterMap, List.mem_cons, List.mem_flatMap,
    Mentions, Prod.exists]
  grind

theorem ncard_mentions (t : Task) (var : Nat) :
    {value | Mentions t var value}.ncard = (valuesOf t var).length := by
  have hset : {value | Mentions t var value} = ((valuesOf t var).toFinset : Set Nat) := by
    ext value
    simp [mem_valuesOf_iff]
  rw [hset, Set.ncard_coe_finset]
  exact List.toFinset_card_of_nodup (nodup_eraseDups _)

/-- The bound, for variables that are at least the slots of the initial state. -/
theorem pairBound_le {numVars : Nat} (h : t.initial.size ≤ numVars) :
    pairBound c t ≤
      c.size * ∏ var ∈ Finset.range numVars, (1 + {value | Mentions t var value}.ncard) := by
  have hfold : ∀ n, (List.range n).foldl
      (fun bound var => bound * (1 + (valuesOf t var).length)) c.size =
        c.size * ∏ var ∈ Finset.range n, (1 + {value | Mentions t var value}.ncard) := by
    intro n
    induction n with
    | zero => simp
    | succ n ih =>
      rw [List.range_succ, List.foldl_append, ih, Finset.prod_range_succ, ← Nat.mul_assoc,
        ncard_mentions]
      rfl
  rw [pairBound, hfold]
  refine Nat.mul_le_mul_left _ (Finset.prod_le_prod_of_subset_of_one_le' ?_ ?_)
  · exact Finset.range_subset_range.mpr h
  · exact fun var _ _ => Nat.le_add_right 1 _

/-! ### The queue -/

namespace Exploration

/-- The queue has been extended by the places of the nodes that are new, in their order. -/
structure Enqueues (e e' : Exploration) : Prop where
  size_le : e.space.size ≤ e'.space.size
  waiting : e'.waiting =
    e.waiting ++ List.range' e.space.size (e'.space.size - e.space.size)

theorem Enqueues.refl (e : Exploration) : Enqueues e e where
  size_le := Nat.le_refl _
  waiting := by simp

theorem Enqueues.trans {e₁ e₂ e₃ : Exploration} (h₁ : Enqueues e₁ e₂) (h₂ : Enqueues e₂ e₃) :
    Enqueues e₁ e₃ where
  size_le := h₁.size_le.trans h₂.size_le
  waiting := by
    obtain ⟨n, hn⟩ := Nat.exists_eq_add_of_le h₁.size_le
    obtain ⟨m, hm⟩ := Nat.exists_eq_add_of_le h₂.size_le
    rw [h₂.waiting, h₁.waiting, hm, hn, List.append_assoc, Nat.add_sub_cancel_left,
      Nat.add_sub_cancel_left, Nat.add_assoc, Nat.add_sub_cancel_left]
    rw [List.range'_append_1]

theorem enqueues_visit (id : Nat) (e : Exploration) (node : SpaceNode) :
    Enqueues e (e.visit id node) := by
  rw [visit_eq]
  cases e.space.idOf? node with
  | some target => exact ⟨Nat.le_refl _, by simp [link, SolutionSpace.addEdge, SolutionSpace.size]⟩
  | none =>
    have hsize : ((e.add node).link id e.space.size).space.size = e.space.size + 1 :=
      SolutionSpace.size_push e.space node
    refine ⟨hsize ▸ Nat.le_succ _, ?_⟩
    change e.waiting ++ [e.space.size] = e.waiting ++ List.range' _ (_ - e.space.size)
    rw [hsize, Nat.add_sub_cancel_left]
    rfl

theorem enqueues_visitAll (id : Nat) (nexts : List SpaceNode) (e : Exploration) :
    Enqueues e (nexts.foldl (Exploration.visit id) e) := by
  induction nexts generalizing e with
  | nil => exact .refl e
  | cons next nexts ih => exact (enqueues_visit id e next).trans (ih _)

theorem enqueues_expand {id : Nat} {node : SpaceNode} {e e' : Exploration}
    (h : expand c t id node e = .ok e') : Enqueues e e' := by
  rw [expand_eq] at h
  obtain ⟨nexts, -, rfl⟩ := Fallible.map_eq_ok.mp h
  exact enqueues_visitAll id nexts e

end Exploration

/-! ### The rounds of the loop -/

/-- A round: the node in front of the queue is taken off and expanded, which puts the places
`joined` behind the queue. -/
def Round (c : Controller) (t : Task) (e : Exploration) (id : Nat) (joined : List Nat)
    (e' : Exploration) : Prop :=
  ∃ waiting node, e.waiting = id :: waiting ∧ e.space.nodes[id]? = some node ∧
    expand c t id node { e with waiting } = .ok e' ∧ e'.waiting = waiting ++ joined

/-- The node in front of the queue cannot be expanded. -/
def Breaks (c : Controller) (t : Task) (e : Exploration) (fault : Fault) : Prop :=
  ∃ id waiting node, e.waiting = id :: waiting ∧ e.space.nodes[id]? = some node ∧
    expand c t id node { e with waiting } = .error fault

/-- The loop has come to an exploration, after taking the places `expanded` off the queue and putting
the places `enqueued` into it, both in this order. It starts if the root fits. -/
inductive Rounds (c : Controller) (t : Task) : List Nat → List Nat → Exploration → Prop
  | start : Fits c (root c t) → Rounds c t [] [0] (.start (root c t))
  | next {expanded enqueued joined : List Nat} {id : Nat} {e e' : Exploration} :
    Rounds c t expanded enqueued e → Round c t e id joined e' →
    Rounds c t (expanded ++ [id]) (enqueued ++ joined) e'

variable {expanded enqueued : List Nat} {e : Exploration}

open Exploration in
theorem Rounds.sound (h : Rounds c t expanded enqueued e) : Sound c t e ∧ Complete c t e := by
  induction h with
  | start hfits => exact ⟨.start hfits, .start _⟩
  | next _ hround ih =>
    obtain ⟨waiting, node, hwaiting, hnode, hexpand, -⟩ := hround
    have hspec := expand_spec ih.1 ih.2 hwaiting hnode
    rw [hexpand] at hspec
    exact ⟨hspec.1, hspec.2.1⟩

/-- What has been put into the queue has been taken off or waits, and counts the nodes. -/
theorem Rounds.queue (h : Rounds c t expanded enqueued e) :
    enqueued = expanded ++ e.waiting ∧ enqueued = List.range e.space.size := by
  induction h with
  | start => exact ⟨rfl, rfl⟩
  | @next expanded enqueued joined id e e' _ hround ih =>
    obtain ⟨waiting, node, hwaiting, -, hexpand, hjoined⟩ := hround
    obtain ⟨hsize, hnew⟩ := Exploration.enqueues_expand hexpand
    refine ⟨by rw [ih.1, hwaiting, hjoined]; simp, ?_⟩
    -- the places that have joined go on where the nodes ended
    obtain rfl : joined = List.range' e.space.size (e'.space.size - e.space.size) :=
      List.append_cancel_left (hjoined.symm.trans hnew)
    obtain ⟨new, hnew⟩ := Nat.exists_eq_add_of_le hsize
    change e'.space.size = e.space.size + new at hnew
    rw [ih.2, hnew, Nat.add_sub_cancel_left, List.range_eq_range', List.range_eq_range']
    have happend := List.range'_append_1 (s := 0) (m := e.space.size) (n := new)
    rwa [Nat.zero_add] at happend

/-- The pairs that are put into the queue are the nodes, so none is put into it twice. -/
theorem Rounds.pairs (h : Rounds c t expanded enqueued e) :
    (enqueued.map fun id => e.space.nodes[id]?) = e.space.nodes.map some ∧
      e.space.nodes.Nodup := by
  refine ⟨?_, h.sound.1.wellFormed.nodup_nodes⟩
  rw [h.queue.2]
  refine List.ext_getElem (by simp [SolutionSpace.size]) fun i hi hi' => ?_
  have hlt : i < e.space.nodes.length := by simpa using hi'
  simp [hlt]

theorem Rounds.length_le (h : Rounds c t expanded enqueued e) :
    expanded.length ≤ pairBound c t := by
  have hsound := h.sound.1
  calc expanded.length ≤ enqueued.length := by rw [h.queue.1, List.length_append]; omega
    _ = e.space.nodes.length := by rw [h.queue.2, List.length_range]; rfl
    _ ≤ pairBound c t :=
      length_le_pairBound hsound.wellFormed.nodup_nodes hsound.reachable hsound.fits

/-- The loop is never stuck: its queue is empty, or the node in front can or cannot be expanded. -/
theorem Rounds.goesOn (h : Rounds c t expanded enqueued e) :
    e.waiting = [] ∨ (∃ id joined e', Round c t e id joined e') ∨ ∃ fault, Breaks c t e fault := by
  cases hwaiting : e.waiting with
  | nil => exact .inl rfl
  | cons id waiting =>
    have hlt : id < e.space.size := h.sound.1.waiting_lt id (hwaiting ▸ List.mem_cons_self)
    have hnode : e.space.nodes[id]? = some e.space.nodes[id] := List.getElem?_eq_getElem hlt
    cases hexpand : expand c t id e.space.nodes[id] { e with waiting } with
    | error fault =>
      exact .inr (.inr ⟨fault, id, waiting, _, hwaiting, hnode, hexpand⟩)
    | ok e' =>
      have hjoined := (Exploration.enqueues_expand hexpand).waiting
      exact .inr (.inl ⟨id, _, e', waiting, _, hwaiting, hnode, hexpand, hjoined⟩)

theorem Round.explore_eq {id : Nat} {joined : List Nat} {e' : Exploration}
    (h : Round c t e id joined e') (rounds : Nat) :
    explore c t (rounds + 1) e = explore c t rounds e' := by
  obtain ⟨waiting, node, hwaiting, hnode, hexpand, -⟩ := h
  simp only [explore, hwaiting, hnode, hexpand]
  rfl

theorem Breaks.explore_eq {fault : Fault} (h : Breaks c t e fault) (rounds : Nat) :
    explore c t (rounds + 1) e = .error fault := by
  obtain ⟨id, waiting, node, hwaiting, hnode, hexpand⟩ := h
  simp only [explore, hwaiting, hnode, hexpand]
  rfl

/-- The exploration goes through rounds, to the fault of a node that cannot be expanded if it
fails. -/
theorem Rounds.explore (h : Rounds c t expanded enqueued e) (rounds : Nat) :
    match explore c t rounds e with
    | .ok e' => ∃ expanded enqueued, Rounds c t expanded enqueued e'
    | .error fault => ∃ expanded enqueued e', Rounds c t expanded enqueued e' ∧
      Breaks c t e' fault := by
  induction rounds generalizing expanded enqueued e with
  | zero => exact ⟨expanded, enqueued, h⟩
  | succ rounds ih =>
    rcases h.goesOn with hwaiting | ⟨id, joined, e', hround⟩ | ⟨fault, hbreaks⟩
    · rw [Verification.explore, hwaiting]
      exact ⟨expanded, enqueued, h⟩
    · rw [hround.explore_eq]
      exact ih (h.next hround)
    · rw [hbreaks.explore_eq]
      exact ⟨expanded, enqueued, e, h, hbreaks⟩

/-! ### Termination -/

/-- How a verification ends: the checks in front of the loop fail, or a round does, or the queue is
empty and the verdict is about the pairs that have been found. -/
inductive Ends (c : Controller) (t : Task) : Except Fault Verdict → Prop
  | unfit {fault : Fault} : ¬ Fits c (root c t) → Disagrees c t fault → Ends c t (.error fault)
  | broken {expanded enqueued : List Nat} {e : Exploration} {fault : Fault} :
    Rounds c t expanded enqueued e → Breaks c t e fault → Ends c t (.error fault)
  | done {expanded enqueued : List Nat} {e : Exploration} {v : Verdict} :
    Rounds c t expanded enqueued e → e.waiting = [] → v.space = e.space → Ends c t (.ok v)

theorem ends_verify (c : Controller) (t : Task) : Ends c t (verify c t) := by
  rw [verify_eq]
  by_cases hfits : Fits c (root c t)
  · have hspec := explore_start_spec hfits
    have hrounds := (Rounds.start hfits).explore (pairBound c t)
    rw [solutionSpace_eq_of_fits hfits]
    cases hrun : explore c t (pairBound c t) (.start (root c t)) with
    | error fault =>
      rw [hrun] at hrounds
      obtain ⟨expanded, enqueued, e, hrounds, hbreaks⟩ := hrounds
      exact .broken hrounds hbreaks
    | ok e =>
      rw [hrun] at hspec hrounds
      obtain ⟨expanded, enqueued, hrounds⟩ := hrounds
      exact .done hrounds hspec.2.2 rfl
  · have hspec := solutionSpace_spec c t
    cases hspace : solutionSpace c t with
    | error fault =>
      rw [hspace] at hspec
      exact .unfit hfits hspec
    | ok space =>
      rw [hspace] at hspec
      exact absurd hspec.1.1 hfits

/-- The verification ends. Whatever rounds its loop has gone through, it is not stuck, it has put each
pair into the queue at most once, and it has expanded no more pairs than there are controller states
times, for each variable, one more than the values that the task mentions for it. -/
theorem verify_terminates (c : Controller) (t : Task) :
    Ends c t (verify c t) ∧
    ∀ expanded enqueued e, Rounds c t expanded enqueued e →
      (e.waiting = [] ∨ (∃ id joined e', Round c t e id joined e') ∨ ∃ fault, Breaks c t e fault) ∧
      enqueued = expanded ++ e.waiting ∧
      (enqueued.map fun id => e.space.nodes[id]?) = e.space.nodes.map some ∧
      e.space.nodes.Nodup ∧
      ∀ numVars, t.initial.size ≤ numVars → expanded.length ≤
        c.size * ∏ var ∈ Finset.range numVars, (1 + {value | Mentions t var value}.ncard) :=
  ⟨ends_verify c t, fun _ _ _ h =>
    ⟨h.goesOn, h.queue.1, h.pairs.1, h.pairs.2,
      fun _ hvars => h.length_le.trans (pairBound_le hvars)⟩⟩

end StrongCyclic.Verification
