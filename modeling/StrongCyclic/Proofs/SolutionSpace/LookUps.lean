import StrongCyclic.Proofs.SolutionSpace.Distance

/-!
The search for the distances with every look at a list by place checked: it gives up where a place
is not in the list. In a solution space whose parts fit together it never does.
-/

namespace StrongCyclic

namespace SolutionSpace

/-- Notes the edge at the place of its target. -/
def notePredecessor? (before : List (List Nat)) (edge : Nat × Nat) : Option (List (List Nat)) :=
  (before[edge.2]?).map fun sources => before.set edge.2 (sources ++ [edge.1])

/-- The predecessors of each node, unless a target has no place among the nodes. -/
def predecessors? (space : SolutionSpace) : Option (List (List Nat)) :=
  space.edges.foldlM notePredecessor? (List.replicate space.size [])

end SolutionSpace

namespace Sweep

/-- Gives a node without a distance the distance `d` and lines it up, unless it has no place among
the distances. -/
def reach? (d : Nat) (sweep : Sweep) (id : Nat) : Option Sweep :=
  (sweep.distances[id]?).map fun
    | none => ⟨sweep.distances.set id (some d), sweep.queue ++ [id]⟩
    | some _ => sweep

theorem eq_reach_of_reach? {d id : Nat} {sweep next : Sweep} (h : sweep.reach? d id = some next) :
    next = sweep.reach d id := by
  obtain ⟨distance, hdistance, rfl⟩ := Option.map_eq_some_iff.mp h
  cases distance with
  | none => rw [reach, if_pos hdistance]
  | some distance => rw [reach, if_neg (by simp [hdistance])]

theorem eq_foldl_of_foldlM_reach? {d : Nat} {ids : List Nat} {sweep next : Sweep}
    (h : ids.foldlM (reach? d) sweep = some next) : next = ids.foldl (reach d) sweep := by
  induction ids generalizing sweep with
  | nil => exact (Option.some.inj h).symm
  | cons id ids ih =>
    rw [List.foldlM_cons] at h
    obtain ⟨between, hbetween, h⟩ := Option.bind_eq_some_iff.mp h
    rw [List.foldl_cons, ← eq_reach_of_reach? hbetween]
    exact ih h

/-- Looks at the predecessors of all nodes that are lined up or will be, unless one of them has no
place among the predecessors or the distances. -/
def run? (predecessors : List (List Nat)) (sweep : Sweep) : Option (List (Option Nat)) :=
  match _hqueue : sweep.queue with
  | [] => some sweep.distances
  | id :: queue =>
    match sweep.distances[id]?, predecessors[id]? with
    | some distance, some before =>
      match _hnext : before.foldlM (reach? ((distance.map (· + 1)).getD 0))
          { sweep with queue } with
      | some next => run? predecessors next
      | none => none
    | _, _ => none
termination_by sweep.remaining
decreasing_by
  rw [eq_foldl_of_foldlM_reach? _hnext, remaining_foldl_reach]
  simp [remaining, _hqueue]

theorem foldlM_reach?_eq_some {d : Nat} {ids : List Nat} {sweep : Sweep}
    (h : ∀ id ∈ ids, id < sweep.distances.length) :
    ids.foldlM (reach? d) sweep = some (ids.foldl (reach d) sweep) := by
  induction ids generalizing sweep with
  | nil => rfl
  | cons id ids ih =>
    obtain ⟨hid, hids⟩ := List.forall_mem_cons.mp h
    obtain ⟨next, hnext⟩ : ∃ next, sweep.reach? d id = some next := by
      simp [reach?, hid]
    rw [List.foldlM_cons, hnext, List.foldl_cons, ← eq_reach_of_reach? hnext]
    refine ih fun other hother => ?_
    rw [eq_reach_of_reach? hnext, length_distances_reach]
    exact hids other hother

end Sweep

namespace SolutionSpace

variable {space : SolutionSpace}

theorem foldlM_notePredecessor?_eq_some {edges : List (Nat × Nat)} {before : List (List Nat)}
    (h : ∀ edge ∈ edges, edge.2 < before.length) :
    edges.foldlM notePredecessor? before =
      some (edges.foldl (fun before (source, target) => before.modify target (· ++ [source]))
        before) := by
  induction edges generalizing before with
  | nil => rfl
  | cons edge edges ih =>
    obtain ⟨hedge, hedges⟩ := List.forall_mem_cons.mp h
    have hnote : notePredecessor? before edge =
        some (before.modify edge.2 (· ++ [edge.1])) := by
      rw [notePredecessor?, List.modify_eq_set_getElem?, List.getElem?_eq_getElem hedge]
      rfl
    rw [List.foldlM_cons, hnote, List.foldl_cons]
    exact ih (by simpa using hedges)

/-- The distance of each node to a controller state, every place being checked. -/
def distancesTo? (space : SolutionSpace) (goal : Nat) : Option (List (Option Nat)) := do
  let predecessors ← space.predecessors?
  (space.sweepFrom goal).run? predecessors

theorem WellFormed.predecessors?_eq (h : space.WellFormed) :
    space.predecessors? = some space.predecessors := by
  refine foldlM_notePredecessor?_eq_some fun edge hedge => ?_
  obtain ⟨source, target⟩ := edge
  rw [List.length_replicate]
  exact h.successors_lt source target ((mem_edges_iff source target).mp hedge)

theorem length_predecessors (space : SolutionSpace) : space.predecessors.length = space.size := by
  have hfold (edges : List (Nat × Nat)) (before : List (List Nat)) :
      (edges.foldl (fun before (edge : Nat × Nat) => before.modify edge.2 (· ++ [edge.1]))
        before).length = before.length := by
    induction edges generalizing before with
    | nil => rfl
    | cons edge edges ih => rw [List.foldl_cons, ih, List.length_modify]
  exact (hfold space.edges _).trans List.length_replicate

theorem WellFormed.run?_eq (h : space.WellFormed) {goal : Nat} {sweep : Sweep}
    (hvalid : sweep.Valid space goal) :
    sweep.run? space.predecessors = some (sweep.run space.predecessors) := by
  fun_induction Sweep.run space.predecessors sweep with
  | case1 sweep hq =>
    rw [Sweep.run?]
    split
    · rfl
    · next hcons => cases hq.symm.trans hcons
  | case2 sweep cur queue hq ih =>
    have hhead : sweep = Sweep.withHead cur { sweep with queue } := by
      rw [Sweep.withHead, ← hq]
    obtain ⟨d, hd⟩ := hvalid.queued cur (hq ▸ List.mem_cons_self)
    have hcur : cur < space.size := hvalid.length_eq ▸ (List.getElem?_eq_some_iff.mp hd).1
    have hbefore : space.predecessors[cur]? = some (space.predecessors.getD cur []) := by
      rw [List.getD_eq_getElem?_getD, List.getElem?_eq_getElem (length_predecessors space ▸ hcur)]
      rfl
    have hreach : (space.predecessors.getD cur []).foldlM (Sweep.reach? (d + 1))
        { sweep with queue } = some ((space.predecessors.getD cur []).foldl (Sweep.reach (d + 1))
          { sweep with queue }) := by
      refine Sweep.foldlM_reach?_eq_some fun id hid => ?_
      rw [hvalid.length_eq]
      exact h.lt_of_mem_successorsOf ((mem_predecessors_iff hcur id).mp hid)
    have hnext : sweep.nextDistance cur = d + 1 := by
      rw [Sweep.nextDistance, List.getD_eq_getElem?_getD, hd]
      rfl
    rw [hhead] at hvalid
    have hstep := hvalid.step h
    rw [← hhead, hnext] at hstep
    rw [hnext] at ih ⊢
    rw [← ih hstep, Sweep.run?]
    split
    · next hnil => cases hq.symm.trans hnil
    · next id rest hcons =>
      obtain ⟨rfl, rfl⟩ := List.cons.inj (hq.symm.trans hcons)
      simp only [hd, hbefore]
      split
      · next next hsome =>
        cases hsome.symm.trans hreach
        rfl
      · next hnone => cases hnone.symm.trans hreach

/-- The search for the distances looks at no place outside its lists. -/
theorem WellFormed.distancesTo?_eq (h : space.WellFormed) (goal : Nat) :
    space.distancesTo? goal = some (space.distancesTo goal) := by
  rw [distancesTo?, h.predecessors?_eq]
  exact h.run?_eq (valid_sweepFrom space goal)

end SolutionSpace

end StrongCyclic
