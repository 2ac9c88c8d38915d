import Mathlib.Data.List.Induction
import StrongCyclic.Proofs.SolutionSpace.LookUps

/-!
Solution spaces with a history: what any sequence of interned pairs and added edges makes of the
empty space, if edges are added only between places that interning has returned before. The parts of
the space fit together, the nodes are the pairs that have been interned, and a place stays the place
of its pair. A single operation keeps this, hence every sequence does.
-/

namespace StrongCyclic

namespace SolutionSpace

/-! ### One operation -/

/-- An operation on a solution space. -/
inductive Operation
  | intern (node : SpaceNode)
  | addEdge (source target : Nat)
deriving DecidableEq

/-- The space after an operation. -/
def apply (space : SolutionSpace) : Operation → SolutionSpace
  | .intern node => (space.intern node).1
  | .addEdge source target => space.addEdge source target

section Intern

variable {space : SolutionSpace}

/-- Interning leaves the space alone or pushes the pair. -/
theorem intern_cases (space : SolutionSpace) (node : SpaceNode) :
    (∃ id, space.idOf? node = some id ∧ space.intern node = (space, id, false)) ∨
      space.idOf? node = none ∧ space.intern node = (space.push node, space.size, true) := by
  unfold intern
  cases h : space.idOf? node with
  | some id => exact .inl ⟨id, rfl, rfl⟩
  | none => exact .inr ⟨rfl, rfl⟩

theorem WellFormed.intern (h : space.WellFormed) (node : SpaceNode) :
    (space.intern node).1.WellFormed := by
  rcases intern_cases space node with ⟨id, -, heq⟩ | ⟨hnew, heq⟩
  · rwa [heq]
  · rw [heq]
    exact WellFormed.push h hnew

/-- A pair has a place just if it is a node. -/
theorem WellFormed.idOf?_eq_none_iff (h : space.WellFormed) {node : SpaceNode} :
    space.idOf? node = none ↔ node ∉ space.nodes := by
  rw [Option.eq_none_iff_forall_ne_some, List.mem_iff_getElem?, not_exists]
  exact forall_congr' fun id => not_congr (h.idOf?_iff node id)

theorem WellFormed.mem_nodes_intern (h : space.WellFormed) {node other : SpaceNode} :
    other ∈ (space.intern node).1.nodes ↔ other ∈ space.nodes ∨ other = node := by
  rcases intern_cases space node with ⟨id, hid, heq⟩ | ⟨-, heq⟩
  · rw [heq, iff_self_or]
    rintro rfl
    exact List.mem_of_getElem? ((h.idOf?_iff other id).mp hid)
  · rw [heq, SolutionSpace.push, List.mem_append, List.mem_singleton]

/-- Interning returns the place that the pair has afterwards. -/
theorem WellFormed.getElem?_intern (h : space.WellFormed) (node : SpaceNode) :
    (space.intern node).1.nodes[(space.intern node).2.1]? = some node := by
  rcases intern_cases space node with ⟨id, hid, heq⟩ | ⟨-, heq⟩
  · rw [heq]
    exact (h.idOf?_iff node id).mp hid
  · rw [heq, SolutionSpace.push, size, List.getElem?_concat_length]

theorem WellFormed.isNew_iff (h : space.WellFormed) {node : SpaceNode} :
    (space.intern node).2.2 = true ↔ node ∉ space.nodes := by
  rw [← h.idOf?_eq_none_iff]
  rcases intern_cases space node with ⟨id, hid, heq⟩ | ⟨hnew, heq⟩
  · simp [heq, hid]
  · simp [heq, hnew]

end Intern

theorem prefix_nodes_apply (space : SolutionSpace) (operation : Operation) :
    space.nodes <+: (space.apply operation).nodes := by
  cases operation with
  | intern node =>
    rcases intern_cases space node with ⟨id, -, heq⟩ | ⟨-, heq⟩
    · have hnodes : (space.apply (.intern node)).nodes = space.nodes := by rw [apply, heq]
      exact hnodes ▸ List.prefix_rfl
    · rw [apply, heq]
      exact List.prefix_append ..
  | addEdge source target => exact List.prefix_rfl

/-! ### Sequences of operations -/

/-- The space that operations make of the empty one. -/
def run (operations : List Operation) : SolutionSpace :=
  operations.foldl apply empty

/-- What interning a pair returns after operations: its place, and whether it is new. -/
def answer (operations : List Operation) (node : SpaceNode) : Nat × Bool :=
  ((run operations).intern node).2

/-- Edges are added only between places that have been returned before; the list has all places that
have been returned. -/
inductive Joined : List Operation → List Nat → Prop
  | nil : Joined [] []
  | intern {operations : List Operation} {ids : List Nat} (node : SpaceNode) :
    Joined operations ids →
      Joined (operations ++ [.intern node]) ((answer operations node).1 :: ids)
  | addEdge {operations : List Operation} {ids : List Nat} {source target : Nat} :
    Joined operations ids → source ∈ ids → target ∈ ids →
      Joined (operations ++ [.addEdge source target]) ids

variable {operations before : List Operation} {ids : List Nat}

theorem run_concat (operations : List Operation) (operation : Operation) :
    run (operations ++ [operation]) = (run operations).apply operation := by
  simp [run]

theorem Joined.of_append {after : List Operation} (h : Joined (before ++ after) ids) :
    ∃ ids, Joined before ids := by
  induction after using List.reverseRecOn generalizing ids with
  | nil => exact ⟨ids, by rwa [List.append_nil] at h⟩
  | append_singleton after operation ih =>
    rw [← List.append_assoc] at h
    obtain ⟨ids, hinit⟩ : ∃ ids, Joined (before ++ after) ids := by
      generalize hops : before ++ after ++ [operation] = operations at h
      cases h with
      | nil => simp at hops
      | intern node h => exact ⟨_, (List.append_inj_left' hops rfl) ▸ h⟩
      | addEdge h => exact ⟨_, (List.append_inj_left' hops rfl) ▸ h⟩
    exact ih hinit

/-- No place of a node changes. -/
theorem prefix_nodes_run (before after : List Operation) :
    (run before).nodes <+: (run (before ++ after)).nodes := by
  induction after using List.reverseRecOn with
  | nil => exact (List.append_nil before).symm ▸ List.prefix_rfl
  | append_singleton after operation ih =>
    rw [← List.append_assoc, run_concat]
    exact ih.trans (prefix_nodes_apply ..)

theorem getElem?_run_append {id : Nat} {node : SpaceNode}
    (h : (run before).nodes[id]? = some node) (after : List Operation) :
    (run (before ++ after)).nodes[id]? = some node := by
  obtain ⟨rest, hrest⟩ := prefix_nodes_run before after
  rw [← hrest, List.getElem?_append_left (List.getElem?_eq_some_iff.mp h).1, h]

/-- The parts of the space fit together, its nodes are the pairs that have been interned, and the
places that have been returned are places of nodes. -/
structure Recalls (operations : List Operation) (ids : List Nat) : Prop where
  wellFormed : (run operations).WellFormed
  mem_nodes_iff : ∀ node, node ∈ (run operations).nodes ↔ .intern node ∈ operations
  lt_size : ∀ id ∈ ids, id < (run operations).size

namespace Recalls

theorem intern (h : Recalls operations ids) (node : SpaceNode) :
    Recalls (operations ++ [.intern node]) ((answer operations node).1 :: ids) where
  wellFormed := by
    rw [run_concat]
    exact h.wellFormed.intern node
  mem_nodes_iff other := by
    rw [run_concat, SolutionSpace.apply, h.wellFormed.mem_nodes_intern, h.mem_nodes_iff,
      List.mem_append, List.mem_singleton, Operation.intern.injEq]
  lt_size := by
    refine List.forall_mem_cons.mpr ⟨?_, fun id hid => ?_⟩
    · rw [run_concat]
      exact (List.getElem?_eq_some_iff.mp (h.wellFormed.getElem?_intern node)).1
    · exact (h.lt_size id hid).trans_le (prefix_nodes_run operations _).length_le

theorem addEdge (h : Recalls operations ids) {source target : Nat} (hsource : source ∈ ids)
    (htarget : target ∈ ids) : Recalls (operations ++ [.addEdge source target]) ids where
  wellFormed := by
    rw [run_concat]
    exact h.wellFormed.addEdge (h.lt_size source hsource) (h.lt_size target htarget)
  mem_nodes_iff node := by
    rw [run_concat, List.mem_append, List.mem_singleton, or_iff_left (by rintro ⟨⟩)]
    exact h.mem_nodes_iff node
  lt_size id hid := (h.lt_size id hid).trans_le (prefix_nodes_run operations _).length_le

end Recalls

theorem Joined.recalls (h : Joined operations ids) : Recalls operations ids := by
  induction h with
  | nil => exact ⟨.empty, fun node => by simp [run, empty], by simp⟩
  | intern node _ ih => exact ih.intern node
  | addEdge _ hsource htarget ih => exact ih.addEdge hsource htarget

/-- What any sequence of operations makes of the empty space. The index is the inverse of the list of
nodes, and there is one list of successors for each node, which names nodes only and none of them
twice. -/
structure Represented (operations : List Operation) : Prop
    extends (run operations).WellFormed where
  nodup_nodes : (run operations).nodes.Nodup
  /-- A pair is new just if it has not been interned before. -/
  isNew_iff : ∀ before node after, operations = before ++ .intern node :: after →
    ((answer before node).2 = true ↔ .intern node ∉ before)
  /-- The place that is returned for a pair is that of the pair. -/
  answer_stays : ∀ before node after, operations = before ++ .intern node :: after →
    (run operations).nodes[(answer before node).1]? = some node
  /-- No place of a node changes. -/
  nodes_stay : ∀ before after, operations = before ++ after → ∀ (id : Nat) node,
    (run before).nodes[id]? = some node → (run operations).nodes[id]? = some node
  /-- The search for the distances looks at no place outside its lists. -/
  distancesTo?_eq : ∀ goal, (run operations).distancesTo? goal =
    some ((run operations).distancesTo goal)

theorem represented_of_joined (h : Joined operations ids) : Represented operations where
  toWellFormed := h.recalls.wellFormed
  nodup_nodes := h.recalls.wellFormed.nodup_nodes
  isNew_iff := by
    rintro before node after rfl
    obtain ⟨ids, hbefore⟩ := h.of_append
    rw [answer, hbefore.recalls.wellFormed.isNew_iff, hbefore.recalls.mem_nodes_iff]
  answer_stays := by
    rintro before node after rfl
    obtain ⟨ids, hbefore⟩ := h.of_append
    have hplace := hbefore.recalls.wellFormed.getElem?_intern node
    rw [← apply, ← run_concat] at hplace
    have hlater := getElem?_run_append hplace after
    rwa [List.append_assoc] at hlater
  nodes_stay := by
    rintro before after rfl id node hid
    exact getElem?_run_append hid after
  distancesTo?_eq := h.recalls.wellFormed.distancesTo?_eq

/-- A closed and an open door; the first pair is interned twice and an edge is added twice. -/
def doorOperations : List Operation :=
  [.intern ⟨0, .ofValues [0]⟩, .intern ⟨1, .ofValues [1]⟩, .addEdge 0 1,
    .intern ⟨0, .ofValues [0]⟩, .addEdge 0 0, .addEdge 0 1]

theorem represented_of_joined_door :
    Joined doorOperations [0, 1, 0] ∧
      run doorOperations = ⟨[⟨0, .ofValues [0]⟩, ⟨1, .ofValues [1]⟩],
        [(⟨0, .ofValues [0]⟩, 0), (⟨1, .ofValues [1]⟩, 1)], [[1, 0], []]⟩ ∧
      Represented doorOperations := by
  have hinterned : Joined (doorOperations.take 2) [1, 0] := .intern _ (.intern _ .nil)
  have hjoined : Joined (doorOperations.take 3) [1, 0] :=
    .addEdge hinterned (by decide) (by decide)
  have hagain : Joined (doorOperations.take 4) [0, 1, 0] := .intern _ hjoined
  have hloop : Joined (doorOperations.take 5) [0, 1, 0] := .addEdge hagain (by decide) (by decide)
  have hall : Joined doorOperations [0, 1, 0] := .addEdge hloop (by decide) (by decide)
  exact ⟨hall, by decide, represented_of_joined hall⟩

end SolutionSpace

end StrongCyclic
