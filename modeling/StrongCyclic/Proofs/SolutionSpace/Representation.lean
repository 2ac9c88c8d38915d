import Mathlib.Data.List.Nodup
import StrongCyclic.Verification.SolutionSpace

/-!
The parts of a solution space fit together: the index is the inverse of the list of nodes, and the
lists of successors, one for each node, name nodes only and none of them twice. Interning a pair and
adding an edge keep it so, and neither changes the place of a node.
-/

namespace StrongCyclic.SolutionSpace

/-- What interning pairs and adding edges between them keeps. -/
structure WellFormed (space : SolutionSpace) : Prop where
  idOf?_iff : ∀ node id, space.idOf? node = some id ↔ space.nodes[id]? = some node
  length_successors : space.successors.length = space.size
  successors_lt : ∀ id, ∀ target ∈ space.successorsOf id, target < space.size
  nodup_successors : ∀ id, (space.successorsOf id).Nodup

variable {space : SolutionSpace}

/-! ### Effects of the operations on the views -/

@[simp] theorem size_push (space : SolutionSpace) (node : SpaceNode) :
    (space.push node).size = space.size + 1 := by
  simp [size, push]

theorem getElem?_push {id : Nat} {old : SpaceNode} (node : SpaceNode)
    (h : space.nodes[id]? = some old) : (space.push node).nodes[id]? = some old := by
  have hid : id < space.nodes.length := (List.getElem?_eq_some_iff.mp h).1
  rw [push, List.getElem?_append_left hid, h]

theorem idOf?_push (space : SolutionSpace) (node other : SpaceNode) :
    (space.push node).idOf? other =
      if other = node then some space.size else space.idOf? other :=
  Keyed.lookup_insert node space.size space.index other

theorem successorsOf_push (space : SolutionSpace) (node : SpaceNode) (id : Nat) :
    (space.push node).successorsOf id = space.successorsOf id := by
  simp only [successorsOf, push, List.getD_eq_getElem?_getD]
  rcases Nat.lt_trichotomy id space.successors.length with h | rfl | h
  · rw [List.getElem?_append_left h]
  · simp
  · rw [List.getElem?_eq_none (by simp; omega), List.getElem?_eq_none (by omega)]

theorem successorsOf_addEdge (space : SolutionSpace) (source target id : Nat)
    (h : source < space.successors.length) :
    (space.addEdge source target).successorsOf id =
      if id = source ∧ target ∉ space.successorsOf id then space.successorsOf id ++ [target]
      else space.successorsOf id := by
  simp only [successorsOf, addEdge, List.getD_eq_getElem?_getD, List.getElem?_modify]
  by_cases hid : id = source
  · subst hid
    by_cases ht : target ∈ space.successors[id] <;> simp [h, ht]
  · simp [hid, Ne.symm hid]

theorem mem_successorsOf_addEdge {source : Nat} (h : source < space.successors.length)
    (target id m : Nat) :
    m ∈ (space.addEdge source target).successorsOf id ↔
      m ∈ space.successorsOf id ∨ (id = source ∧ m = target) := by
  rw [successorsOf_addEdge space source target id h]
  by_cases hid : id = source
  · by_cases ht : target ∈ space.successorsOf id
    · simp only [hid] at ht ⊢
      simp only [ht, not_true_eq_false, and_false, if_false, true_and]
      exact ⟨Or.inl, fun hm => hm.elim (fun h => h) fun he => he ▸ ht⟩
    · simp [hid ▸ ht, hid]
  · simp [hid]

/-! ### Well-formedness -/

namespace WellFormed

theorem empty : SolutionSpace.empty.WellFormed where
  idOf?_iff := by simp [idOf?, SolutionSpace.empty]
  length_successors := rfl
  successors_lt := by simp [successorsOf, SolutionSpace.empty]
  nodup_successors := by simp [successorsOf, SolutionSpace.empty]

theorem nodup_nodes (h : space.WellFormed) : space.nodes.Nodup := by
  rw [List.nodup_iff_getElem?_ne_getElem?]
  intro i j hij hj heq
  have hnode := List.getElem?_eq_getElem hj
  have hi := (h.idOf?_iff _ i).mpr (heq.trans hnode)
  have hj := (h.idOf?_iff _ j).mpr hnode
  exact absurd (Option.some.inj (hi.symm.trans hj)) (Nat.ne_of_lt hij)

theorem lt_of_mem_successorsOf (h : space.WellFormed) {id target : Nat}
    (hmem : target ∈ space.successorsOf id) : id < space.size := by
  by_contra hge
  have hnone : space.successors[id]? = none :=
    List.getElem?_eq_none (by rw [h.length_successors]; omega)
  rw [successorsOf, List.getD_eq_getElem?_getD, hnone] at hmem
  exact nomatch hmem

theorem push (h : space.WellFormed) {node : SpaceNode} (hnew : space.idOf? node = none) :
    (space.push node).WellFormed where
  idOf?_iff other id := by
    have hold := h.idOf?_iff other id
    rw [idOf?_push]
    by_cases ho : other = node
    · -- the new pair has the place behind all others, and no other place
      subst ho
      rw [hnew] at hold
      simp only [if_true, Option.some.injEq, SolutionSpace.push, List.getElem?_append]
      grind [size]
    · rw [if_neg ho, hold]
      simp only [SolutionSpace.push, List.getElem?_append]
      grind
  length_successors := by
    simp [SolutionSpace.push, size, h.length_successors]
  successors_lt id target ht := by
    rw [successorsOf_push] at ht
    simpa using Nat.lt_succ_of_lt (h.successors_lt id target ht)
  nodup_successors id := by
    rw [successorsOf_push]
    exact h.nodup_successors id

theorem addEdge (h : space.WellFormed) {source target : Nat} (hs : source < space.size)
    (ht : target < space.size) : (space.addEdge source target).WellFormed where
  idOf?_iff := h.idOf?_iff
  length_successors := by
    simpa [SolutionSpace.addEdge, size] using h.length_successors
  successors_lt id m hm := by
    rw [mem_successorsOf_addEdge (h.length_successors ▸ hs)] at hm
    rcases hm with hm | ⟨-, rfl⟩
    · exact h.successors_lt id m hm
    · exact ht
  nodup_successors id := by
    rw [successorsOf_addEdge _ _ _ _ (h.length_successors ▸ hs)]
    split
    next hnew =>
      exact List.nodup_append.mpr ⟨h.nodup_successors id, by simp, by
        rintro a ha b hb rfl
        exact hnew.2 (List.mem_singleton.mp hb ▸ ha)⟩
    next => exact h.nodup_successors id

end WellFormed

end StrongCyclic.SolutionSpace
