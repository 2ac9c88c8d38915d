import Mathlib.Data.List.Perm.Subperm
import StrongCyclic.Proofs.SolutionSpace.Path

/-!
Distances in a solution space. A sweep against the direction of the edges, which starts with the
goal nodes and takes the nodes in the order in which they were given a distance, finds the length of
a shortest path to a goal node for every node that has a path, and leaves the others without one.

The queue of the sweep is ordered by distance, and no distance is larger by more than one than that
of a node that waits (`Sweep.Valid`). Hence a node that is given a distance after all others cannot
spoil the order, and a node that has left the queue has predecessors that are at most one further
away.
-/

namespace StrongCyclic

open SolutionSpace

namespace Sweep

/-- What a sweep for the nodes with a controller state keeps. -/
structure Valid (space : SolutionSpace) (goal : Nat) (sweep : Sweep) : Prop where
  length_eq : sweep.distances.length = space.size
  path : ∀ id d : Nat, sweep.distances[id]? = some (some d) → d ∈ space.pathLengths goal id
  goal : ∀ id, space.isAt goal id = true → sweep.distances[id]? = some (some 0)
  queued : ∀ id ∈ sweep.queue, ∃ d, sweep.distances[id]? = some (some d)
  sorted : sweep.queue.Pairwise fun i j => ∀ d d' : Nat, sweep.distances[i]? = some (some d) →
    sweep.distances[j]? = some (some d') → d ≤ d'
  band : ∀ i ∈ sweep.queue, ∀ j d d' : Nat, sweep.distances[i]? = some (some d) →
    sweep.distances[j]? = some (some d') → d' ≤ d + 1
  closed : ∀ id d : Nat, sweep.distances[id]? = some (some d) → id ∈ sweep.queue ∨
    ∀ before, id ∈ space.successorsOf before →
      ∃ d', sweep.distances[before]? = some (some d') ∧ d' ≤ d + 1

variable {space : SolutionSpace} {goal : Nat} {sweep : Sweep}

/-! ### Reaching one node -/

/-- A distance that is given is not taken back. -/
theorem getElem?_reach_of_some {id d : Nat} (e other : Nat)
    (h : sweep.distances[id]? = some (some d)) :
    (sweep.reach e other).distances[id]? = some (some d) := by
  unfold reach
  split
  next hnone =>
    have hne : other ≠ id := by
      rintro rfl
      exact nomatch hnone.symm.trans h
    rw [List.getElem?_set_ne hne, h]
  next => exact h

/-- The only new distance is that of the node that is reached. -/
theorem getElem?_reach_iff {other : Nat} (hnone : sweep.distances[other]? = some none)
    (e id d : Nat) : (sweep.reach e other).distances[id]? = some (some d) ↔
      sweep.distances[id]? = some (some d) ∨ (id = other ∧ d = e) := by
  have hlt : other < sweep.distances.length := (List.getElem?_eq_some_iff.mp hnone).1
  rw [reach, if_pos hnone]
  by_cases hid : other = id
  · subst hid
    rw [List.getElem?_set_self hlt, hnone]
    simp [eq_comm]
  · simp [hid, Ne.symm hid]

/-- A node that has just been reached has the distance that it was reached with. -/
theorem eq_of_getElem?_reach {other e d' : Nat} (hnone : sweep.distances[other]? = some none)
    (hd' : (sweep.reach e other).distances[other]? = some (some d')) : d' = e := by
  rcases (getElem?_reach_iff hnone e other d').mp hd' with hold | ⟨-, he⟩
  · exact nomatch hnone.symm.trans hold
  · exact he

theorem queue_reach {other : Nat} (hnone : sweep.distances[other]? = some none) (e : Nat) :
    (sweep.reach e other).queue = sweep.queue ++ [other] := by
  rw [reach, if_pos hnone]

/-- A node that is reached has a distance afterwards. -/
theorem exists_getElem?_reach {id : Nat} (e : Nat) (h : id < sweep.distances.length) :
    ∃ d, (sweep.reach e id).distances[id]? = some (some d) := by
  cases hold : sweep.distances[id] with
  | some d =>
    exact ⟨d, getElem?_reach_of_some e id (List.getElem?_eq_some_iff.mpr ⟨h, hold⟩)⟩
  | none =>
    have hnone : sweep.distances[id]? = some none := List.getElem?_eq_some_iff.mpr ⟨h, hold⟩
    exact ⟨e, (getElem?_reach_iff hnone e id e).mpr (.inr ⟨rfl, rfl⟩)⟩

theorem length_distances_reach (e other : Nat) :
    (sweep.reach e other).distances.length = sweep.distances.length := by
  unfold reach
  split
  next => exact List.length_set
  next => rfl

/-! ### Reaching all predecessors of a node -/

/-- A sweep with one more node in front of the queue. -/
def withHead (cur : Nat) (sweep : Sweep) : Sweep :=
  { sweep with queue := cur :: sweep.queue }

theorem reach_withHead (cur d id : Nat) (sweep : Sweep) :
    (sweep.withHead cur).reach d id = (sweep.reach d id).withHead cur := by
  unfold reach withHead
  split <;> rfl

theorem getElem?_foldl_reach_of_some {id d : Nat} (e : Nat) (ids : List Nat)
    (h : sweep.distances[id]? = some (some d)) :
    (ids.foldl (reach e) sweep).distances[id]? = some (some d) := by
  induction ids generalizing sweep with
  | nil => exact h
  | cons other ids ih => exact ih (getElem?_reach_of_some e other h)

theorem exists_getElem?_foldl_reach {id : Nat} (e : Nat) {ids : List Nat} (hid : id ∈ ids)
    (h : id < sweep.distances.length) :
    ∃ d, (ids.foldl (reach e) sweep).distances[id]? = some (some d) := by
  induction ids generalizing sweep with
  | nil => exact nomatch hid
  | cons other ids ih =>
    rw [List.foldl_cons]
    rcases List.mem_cons.mp hid with rfl | hid
    · obtain ⟨d, hd⟩ := exists_getElem?_reach e h
      exact ⟨d, getElem?_foldl_reach_of_some e ids hd⟩
    · exact ih hid (by rwa [length_distances_reach])

/-! ### The invariant -/

namespace Valid

variable {cur d : Nat} {rest : List Nat}

theorem le_of_mem_queue (h : sweep.Valid space goal) (hq : sweep.queue = cur :: rest)
    (hd : sweep.distances[cur]? = some (some d)) {id d' : Nat} (hid : id ∈ sweep.queue)
    (hd' : sweep.distances[id]? = some (some d')) : d ≤ d' := by
  rw [hq] at hid
  rcases List.mem_cons.mp hid with rfl | hrest
  · cases hd.symm.trans hd'
    exact Nat.le_refl d
  · have hsorted := h.sorted
    rw [hq] at hsorted
    exact (List.pairwise_cons.mp hsorted).1 id hrest d d' hd hd'

/-- The nodes that wait have a distance already, so it does not change. -/
theorem getElem?_of_reach (h : sweep.Valid space goal) {other id : Nat}
    (hnone : sweep.distances[other]? = some none) (hid : id ∈ sweep.queue) {e d' : Nat}
    (hd' : (sweep.reach e other).distances[id]? = some (some d')) :
    sweep.distances[id]? = some (some d') := by
  rcases (getElem?_reach_iff hnone e id d').mp hd' with hold | ⟨rfl, -⟩
  · exact hold
  · obtain ⟨d, hd⟩ := h.queued id hid
    exact nomatch hnone.symm.trans hd

theorem sorted_reach (h : sweep.Valid space goal) (hcur : cur ∈ sweep.queue)
    (hd : sweep.distances[cur]? = some (some d)) {id : Nat}
    (hnone : sweep.distances[id]? = some none) :
    (sweep.reach (d + 1) id).queue.Pairwise fun i j => ∀ e e' : Nat,
      (sweep.reach (d + 1) id).distances[i]? = some (some e) →
      (sweep.reach (d + 1) id).distances[j]? = some (some e') → e ≤ e' := by
  rw [queue_reach hnone, List.pairwise_append]
  refine ⟨?_, List.pairwise_singleton .., ?_⟩
  · refine h.sorted.imp_of_mem fun hi hj hle e e' he he' => ?_
    exact hle e e' (h.getElem?_of_reach hnone hi he) (h.getElem?_of_reach hnone hj he')
  · intro i hi j hj e e' he he'
    rw [List.mem_singleton.mp hj] at he'
    rw [eq_of_getElem?_reach hnone he']
    exact h.band cur hcur i d e hd (h.getElem?_of_reach hnone hi he)

theorem band_reach (h : sweep.Valid space goal) (hq : sweep.queue = cur :: rest)
    (hd : sweep.distances[cur]? = some (some d)) {id : Nat}
    (hnone : sweep.distances[id]? = some none) :
    ∀ i ∈ (sweep.reach (d + 1) id).queue, ∀ j e e' : Nat,
      (sweep.reach (d + 1) id).distances[i]? = some (some e) →
      (sweep.reach (d + 1) id).distances[j]? = some (some e') → e' ≤ e + 1 := by
  intro i hi j e e' he he'
  have hcur : cur ∈ sweep.queue := hq ▸ List.mem_cons_self
  have hlow : d ≤ e := by
    rw [queue_reach hnone] at hi
    rcases List.mem_append.mp hi with hi | hi
    · exact h.le_of_mem_queue hq hd hi (h.getElem?_of_reach hnone hi he)
    · rw [List.mem_singleton.mp hi] at he
      have := eq_of_getElem?_reach hnone he
      omega
  rcases (getElem?_reach_iff hnone _ j e').mp he' with he' | ⟨-, rfl⟩
  · have := h.band cur hcur j d e' hd he'
    omega
  · omega

/-- Reaching a predecessor of the first node of the queue keeps the invariant. -/
theorem reach (h : sweep.Valid space goal) (hq : sweep.queue = cur :: rest)
    (hd : sweep.distances[cur]? = some (some d)) {id : Nat}
    (hedge : cur ∈ space.successorsOf id) : (sweep.reach (d + 1) id).Valid space goal := by
  by_cases hnone : sweep.distances[id]? = some none
  case neg =>
    rw [Sweep.reach, if_neg hnone]
    exact h
  have hcur : cur ∈ sweep.queue := hq ▸ List.mem_cons_self
  have hnew := getElem?_reach_iff hnone (d + 1)
  refine ⟨?_, ?_, ?_, ?_, h.sorted_reach hcur hd hnone, h.band_reach hq hd hnone, ?_⟩
  · rw [length_distances_reach, h.length_eq]
  · intro i e he
    rcases (hnew i e).mp he with he | ⟨rfl, rfl⟩
    · exact h.path i e he
    · exact (succ_mem_pathLengths_iff d i).mpr ⟨cur, hedge, h.path cur d hd⟩
  · intro i hi
    exact getElem?_reach_of_some (d + 1) id (h.goal i hi)
  · intro i hi
    rw [queue_reach hnone] at hi
    rcases List.mem_append.mp hi with hi | hi
    · obtain ⟨e, he⟩ := h.queued i hi
      exact ⟨e, (hnew i e).mpr (.inl he)⟩
    · exact ⟨d + 1, (hnew i _).mpr (.inr ⟨List.mem_singleton.mp hi, rfl⟩)⟩
  · intro i e he
    rw [queue_reach hnone]
    rcases (hnew i e).mp he with he | ⟨rfl, -⟩
    · rcases h.closed i e he with hi | hclosed
      · exact .inl (List.mem_append_left _ hi)
      · refine .inr fun before hbefore => ?_
        obtain ⟨e', he', hle⟩ := hclosed before hbefore
        exact ⟨e', (hnew before e').mpr (.inl he'), hle⟩
    · exact .inl (List.mem_append_right _ (List.mem_singleton_self i))

theorem foldl_reach (h : (sweep.withHead cur).Valid space goal)
    (hd : sweep.distances[cur]? = some (some d)) {ids : List Nat}
    (hedges : ∀ id ∈ ids, cur ∈ space.successorsOf id) :
    ((ids.foldl (Sweep.reach (d + 1)) sweep).withHead cur).Valid space goal := by
  induction ids generalizing sweep with
  | nil => exact h
  | cons id ids ih =>
    obtain ⟨hedge, hedges⟩ := List.forall_mem_cons.mp hedges
    refine ih ?_ (getElem?_reach_of_some (d + 1) id hd) hedges
    rw [← reach_withHead]
    exact h.reach rfl hd hedge

/-- The first node of the queue may leave it once all its predecessors have a distance. -/
theorem pop (h : (sweep.withHead cur).Valid space goal)
    (hd : sweep.distances[cur]? = some (some d))
    (hbefore : ∀ before, cur ∈ space.successorsOf before →
      ∃ d', sweep.distances[before]? = some (some d')) : sweep.Valid space goal where
  length_eq := h.length_eq
  path := h.path
  goal := h.goal
  queued id hid := h.queued id (List.mem_cons_of_mem cur hid)
  sorted := (List.pairwise_cons.mp h.sorted).2
  band id hid := h.band id (List.mem_cons_of_mem cur hid)
  closed id e he := by
    rcases h.closed id e he with hid | hclosed
    · rcases List.mem_cons.mp hid with rfl | hid
      · refine .inr fun before hmem => ?_
        obtain ⟨d', hd'⟩ := hbefore before hmem
        exact ⟨d', hd', h.band id List.mem_cons_self before e d' he hd'⟩
      · exact .inl hid
    · exact .inr hclosed

/-- A step of the sweep keeps the invariant. -/
theorem step (hspace : space.WellFormed) (h : (sweep.withHead cur).Valid space goal) :
    ((space.predecessors.getD cur []).foldl
      (Sweep.reach ((sweep.withHead cur).nextDistance cur)) sweep).Valid space goal := by
  obtain ⟨d, hd⟩ := h.queued cur List.mem_cons_self
  have hcur : cur < space.size := h.length_eq ▸ (List.getElem?_eq_some_iff.mp hd).1
  have hnext : (sweep.withHead cur).nextDistance cur = d + 1 := by
    rw [nextDistance, List.getD_eq_getElem?_getD, hd]
    rfl
  rw [hnext]
  refine (h.foldl_reach hd fun id hid => ?_).pop (getElem?_foldl_reach_of_some _ _ hd) ?_
  · exact (mem_predecessors_iff hcur id).mp hid
  · intro before hmem
    have hlt : before < space.size := hspace.lt_of_mem_successorsOf hmem
    exact exists_getElem?_foldl_reach _ ((mem_predecessors_iff hcur before).mpr hmem)
      (h.length_eq ▸ hlt)

theorem run (hspace : space.WellFormed) (h : sweep.Valid space goal) :
    (Sweep.mk (sweep.run space.predecessors) []).Valid space goal := by
  fun_induction Sweep.run space.predecessors sweep with
  | case1 sweep hq =>
    rw [← hq]
    exact h
  | case2 sweep cur queue hq ih =>
    refine ih ?_
    have hhead : sweep = Sweep.withHead cur { sweep with queue } := by
      rw [withHead, ← hq]
    rw [hhead] at h
    have hstep := h.step hspace
    rwa [← hhead] at hstep

end Valid

end Sweep

namespace SolutionSpace

variable {space : SolutionSpace} {goal : Nat} {distances : List (Option Nat)}

/-! ### The finished sweep -/

theorem getElem?_sweepFrom_iff (id d : Nat) :
    (space.sweepFrom goal).distances[id]? = some (some d) ↔ space.isAt goal id = true ∧ d = 0 := by
  rw [isAt_iff]
  simp only [sweepFrom, List.getElem?_map]
  cases space.nodes[id]? with
  | none => simp
  | some node => by_cases hgoal : node.controller = goal <;> simp [hgoal, eq_comm]

theorem mem_queue_sweepFrom_iff (id : Nat) :
    id ∈ (space.sweepFrom goal).queue ↔ space.isAt goal id = true := by
  refine List.mem_filter.trans ⟨And.right, fun h => ⟨?_, h⟩⟩
  obtain ⟨node, hnode, -⟩ := (isAt_iff id).mp h
  exact List.mem_range.mpr (List.getElem?_eq_some_iff.mp hnode).1

theorem valid_sweepFrom (space : SolutionSpace) (goal : Nat) :
    (space.sweepFrom goal).Valid space goal := by
  have hzero (id d : Nat) (h : (space.sweepFrom goal).distances[id]? = some (some d)) : d = 0 :=
    ((getElem?_sweepFrom_iff id d).mp h).2
  refine ⟨List.length_map .., ?_, ?_, ?_, ?_, ?_, ?_⟩
  · intro id d h
    obtain ⟨hat, rfl⟩ := (getElem?_sweepFrom_iff id d).mp h
    exact zero_mem_pathLengths hat
  · intro id h
    exact (getElem?_sweepFrom_iff id 0).mpr ⟨h, rfl⟩
  · intro id h
    exact ⟨0, (getElem?_sweepFrom_iff id 0).mpr ⟨(mem_queue_sweepFrom_iff id).mp h, rfl⟩⟩
  · refine List.pairwise_of_forall fun i j d d' hd _ => ?_
    rw [hzero i d hd]
    exact Nat.zero_le d'
  · intro i _ j d d' _ hd'
    rw [hzero j d' hd']
    exact Nat.zero_le (d + 1)
  · intro id d h
    exact .inl ((mem_queue_sweepFrom_iff id).mpr ((getElem?_sweepFrom_iff id d).mp h).1)

/-- When no node waits, each node with a path has a distance, which is not larger than the length of
the path. -/
theorem exists_le_of_mem_pathLengths (h : (Sweep.mk distances []).Valid space goal)
    {length id : Nat} (hpath : length ∈ space.pathLengths goal id) :
    ∃ d, distances[id]? = some (some d) ∧ d ≤ length := by
  obtain ⟨target, node, hnode, hgoal, hwalk⟩ := hpath
  induction hwalk with
  | nil id => exact ⟨0, h.goal id ((isAt_iff id).mpr ⟨node, hnode, hgoal⟩), Nat.le_refl 0⟩
  | cons hnext _ ih =>
    obtain ⟨d, hd, hle⟩ := ih hnode
    rcases h.closed _ d hd with hwait | hclosed
    · exact nomatch hwait
    · obtain ⟨d', hd', hle'⟩ := hclosed _ hnext
      exact ⟨d', hd', by omega⟩

theorem isLeast_iff_of_valid (h : (Sweep.mk distances []).Valid space goal) (id d : Nat) :
    distances[id]? = some (some d) ↔ IsLeast (space.pathLengths goal id) d := by
  constructor
  · intro hd
    refine ⟨h.path id d hd, fun length hpath => ?_⟩
    obtain ⟨d', hd', hle⟩ := exists_le_of_mem_pathLengths h hpath
    cases hd.symm.trans hd'
    exact hle
  · rintro ⟨hpath, hleast⟩
    obtain ⟨d', hd', hle⟩ := exists_le_of_mem_pathLengths h hpath
    rw [hd', Nat.le_antisymm hle (hleast (h.path id d' hd'))]

/-- There are at least as many distances as values up to the largest of them. -/
theorem lt_length_of_isLeast
    (h : ∀ id d : Nat, distances[id]? = some (some d) ↔ IsLeast (space.pathLengths goal id) d)
    {id d : Nat} (hd : distances[id]? = some (some d)) : d < distances.length := by
  have hsub : List.range (d + 1) ⊆ distances.filterMap fun distance => distance := by
    intro k hk
    obtain ⟨place, hplace⟩ := exists_isLeast_pathLengths ((h id d).mp hd) k
      (Nat.lt_succ_iff.mp (List.mem_range.mp hk))
    exact List.mem_filterMap.mpr ⟨some k, List.mem_of_getElem? ((h place k).mpr hplace), rfl⟩
  calc d < (List.range (d + 1)).length := by rw [List.length_range]; omega
    _ ≤ (distances.filterMap fun distance => distance).length :=
      (List.subperm_of_subset List.nodup_range hsub).length_le
    _ ≤ distances.length := List.length_filterMap_le _ _

/-- The sweep finds the distances to the nodes with any controller state. -/
theorem WellFormed.areDistances (hspace : space.WellFormed) (goal : Nat) :
    space.AreDistances goal (space.distancesTo goal) := by
  have hvalid := (valid_sweepFrom space goal).run hspace
  have hiff := isLeast_iff_of_valid hvalid
  have hlength : (space.distancesTo goal).length = space.size := hvalid.length_eq
  refine ⟨hlength, hiff, fun id hid => ?_, fun id d hd => hlength ▸ lt_length_of_isLeast hiff hd⟩
  constructor
  · intro hnone
    refine Set.eq_empty_iff_forall_notMem.mpr fun length hpath => ?_
    obtain ⟨d, hd, -⟩ := exists_le_of_mem_pathLengths hvalid hpath
    exact nomatch hnone.symm.trans hd
  · intro hempty
    cases hd : (space.distancesTo goal)[id] with
    | none => exact List.getElem?_eq_some_iff.mpr ⟨_, hd⟩
    | some d =>
      have hpath := hvalid.path id d (List.getElem?_eq_some_iff.mpr ⟨hlength ▸ hid, hd⟩)
      rw [hempty] at hpath
      exact hpath.elim

end SolutionSpace

end StrongCyclic
