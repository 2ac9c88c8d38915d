import StrongCyclic.Proofs.SolutionSpace.Representation
import StrongCyclic.Proofs.Verification.PairBound

/-!
The exploration finds the pairs of all runs and the steps between them. Two facts hold between any
two rounds: what has been found is sound (pairs of runs, edges that are steps), and it is complete but
for the nodes that wait. Each round takes one node off the queue and `pairBound` bounds the number of
nodes, so the queue is empty before the rounds are used up.
-/

namespace StrongCyclic.Verification

variable {c : Controller} {t : Task}

namespace Exploration

/-! ### Visits -/

/-- Adds a new pair, which waits. -/
def add (e : Exploration) (node : SpaceNode) : Exploration :=
  ⟨e.space.push node, e.waiting ++ [e.space.size]⟩

/-- Adds an edge between two nodes. -/
def link (source : Nat) (e : Exploration) (target : Nat) : Exploration :=
  ⟨e.space.addEdge source target, e.waiting⟩

theorem visit_eq (id : Nat) (e : Exploration) (node : SpaceNode) :
    e.visit id node =
      match e.space.idOf? node with
      | some target => e.link id target
      | none => (e.add node).link id e.space.size := by
  unfold visit SolutionSpace.intern
  cases e.space.idOf? node <;> rfl

/-- What visits do not undo: nodes keep their places and edges stay. The nodes that are new wait, and
they are as many as have joined the queue. -/
structure Grows (e e' : Exploration) : Prop where
  nodes : ∀ (id : Nat) (node : SpaceNode), e.space.nodes[id]? = some node →
    e'.space.nodes[id]? = some node
  edges : ∀ id target, target ∈ e.space.successorsOf id → target ∈ e'.space.successorsOf id
  waiting : ∀ id ∈ e.waiting, id ∈ e'.waiting
  fresh : ∀ id, e.space.size ≤ id → id < e'.space.size → id ∈ e'.waiting
  count : e'.space.size + e.waiting.length = e.space.size + e'.waiting.length

namespace Grows

theorem refl (e : Exploration) : Grows e e where
  nodes _ _ h := h
  edges _ _ h := h
  waiting _ h := h
  fresh _ hle hlt := absurd hlt (Nat.not_lt_of_ge hle)
  count := rfl

theorem trans {e₁ e₂ e₃ : Exploration} (h₁ : Grows e₁ e₂) (h₂ : Grows e₂ e₃) : Grows e₁ e₃ where
  nodes id node h := h₂.nodes id node (h₁.nodes id node h)
  edges id target h := h₂.edges id target (h₁.edges id target h)
  waiting id h := h₂.waiting id (h₁.waiting id h)
  fresh id hle hlt := by
    rcases Nat.lt_or_ge id e₂.space.size with h | h
    · exact h₂.waiting id (h₁.fresh id hle h)
    · exact h₂.fresh id h hlt
  count := by
    have := h₁.count
    have := h₂.count
    omega

theorem add (e : Exploration) (node : SpaceNode) : Grows e (e.add node) where
  nodes _ _ h := SolutionSpace.getElem?_push node h
  edges id target h := by rwa [Exploration.add, SolutionSpace.successorsOf_push]
  waiting _ h := List.mem_append_left _ h
  fresh id hle hlt := by
    rw [Exploration.add, SolutionSpace.size_push] at hlt
    have : id = e.space.size := by omega
    simp [Exploration.add, this]
  count := by
    simp only [Exploration.add, SolutionSpace.size_push, List.length_append, List.length_singleton]
    omega

theorem link {e : Exploration} {source : Nat} (h : source < e.space.successors.length)
    (target : Nat) : Grows e (e.link source target) where
  nodes _ _ h := h
  edges id m hm := (SolutionSpace.mem_successorsOf_addEdge h target id m).mpr (.inl hm)
  waiting _ h := h
  fresh _ hle hlt := absurd hlt (Nat.not_lt_of_ge hle)
  count := rfl

end Grows

/-! ### Soundness -/

/-- What has been found belongs to runs, and the nodes that wait exist. -/
structure Sound (c : Controller) (t : Task) (e : Exploration) : Prop where
  wellFormed : e.space.WellFormed
  root : e.space.nodes[0]? = some (root c t)
  reachable : ∀ node ∈ e.space.nodes, Reachable c t node
  fits : ∀ node ∈ e.space.nodes, Fits c node
  step : ∀ id node target, e.space.nodes[id]? = some node → target ∈ e.space.successorsOf id →
    ∃ next, e.space.nodes[target]? = some next ∧ Step c t node next
  waiting_lt : ∀ id ∈ e.waiting, id < e.space.size

namespace Sound

variable {e : Exploration}

theorem start (h : Fits c (Verification.root c t)) :
    Sound c t (.start (Verification.root c t)) where
  wellFormed := SolutionSpace.WellFormed.empty.push rfl
  root := rfl
  reachable node hn := List.mem_singleton.mp hn ▸ .refl
  fits node hn := List.mem_singleton.mp hn ▸ h
  step id node target hn ht := by
    have hnone : target ∈ (SolutionSpace.empty.push (Verification.root c t)).successorsOf id := ht
    rw [SolutionSpace.successorsOf_push] at hnone
    exact nomatch hnone
  waiting_lt id hid := by
    rw [List.mem_singleton.mp hid]
    exact Nat.zero_lt_one

theorem add (h : Sound c t e) {node : SpaceNode} (hnew : e.space.idOf? node = none)
    (hr : Reachable c t node) (hf : Fits c node) : Sound c t (e.add node) where
  wellFormed := h.wellFormed.push hnew
  root := SolutionSpace.getElem?_push node h.root
  reachable m hm := by
    rcases List.mem_append.mp hm with hm | hm
    · exact h.reachable m hm
    · exact List.mem_singleton.mp hm ▸ hr
  fits m hm := by
    rcases List.mem_append.mp hm with hm | hm
    · exact h.fits m hm
    · exact List.mem_singleton.mp hm ▸ hf
  step id m target hm ht := by
    rw [Exploration.add, SolutionSpace.successorsOf_push] at ht
    -- only old nodes have successors so far
    have hid : id < e.space.nodes.length := h.wellFormed.lt_of_mem_successorsOf ht
    rw [Exploration.add, SolutionSpace.push, List.getElem?_append_left hid] at hm
    obtain ⟨next, hnext, hstep⟩ := h.step id m target hm ht
    exact ⟨next, SolutionSpace.getElem?_push node hnext, hstep⟩
  waiting_lt id hid := by
    rcases List.mem_append.mp hid with hid | hid
    · simpa [Exploration.add] using Nat.lt_succ_of_lt (h.waiting_lt id hid)
    · simp [Exploration.add, List.mem_singleton.mp hid]

theorem link (h : Sound c t e) {id target : Nat} {node next : SpaceNode}
    (hid : e.space.nodes[id]? = some node) (ht : e.space.nodes[target]? = some next)
    (hs : Step c t node next) : Sound c t (e.link id target) where
  wellFormed := h.wellFormed.addEdge (List.getElem?_eq_some_iff.mp hid).1
    (List.getElem?_eq_some_iff.mp ht).1
  root := h.root
  reachable := h.reachable
  fits := h.fits
  step k m n hm hn := by
    have hlt : id < e.space.successors.length :=
      h.wellFormed.length_successors ▸ (List.getElem?_eq_some_iff.mp hid).1
    rcases (SolutionSpace.mem_successorsOf_addEdge hlt target k n).mp hn with hn | ⟨rfl, rfl⟩
    · exact h.step k m n hm hn
    · cases hid.symm.trans hm
      exact ⟨next, ht, hs⟩
  waiting_lt := h.waiting_lt

end Sound

/-! ### Visiting all pairs that a pair leads to -/

/-- There is an edge from the node at a place to a pair. -/
def HasEdge (e : Exploration) (id : Nat) (next : SpaceNode) : Prop :=
  ∃ target ∈ e.space.successorsOf id, e.space.nodes[target]? = some next

theorem HasEdge.mono {e e' : Exploration} {id : Nat} {next : SpaceNode} (h : e.HasEdge id next)
    (hg : Grows e e') : e'.HasEdge id next := by
  obtain ⟨target, ht, hnext⟩ := h
  exact ⟨target, hg.edges id target ht, hg.nodes target next hnext⟩

variable {e : Exploration} {id : Nat} {node : SpaceNode}

theorem Sound.hasEdge_link (h : Sound c t e) (hid : id < e.space.size) {target : Nat}
    {next : SpaceNode} (ht : e.space.nodes[target]? = some next) :
    (e.link id target).HasEdge id next :=
  ⟨target, (SolutionSpace.mem_successorsOf_addEdge (h.wellFormed.length_successors ▸ hid)
    target id target).mpr (.inr ⟨rfl, rfl⟩), ht⟩

theorem Sound.visit (h : Sound c t e) (hid : e.space.nodes[id]? = some node) {next : SpaceNode}
    (hs : Step c t node next) (hf : Fits c next) :
    Sound c t (e.visit id next) ∧ Grows e (e.visit id next) ∧ (e.visit id next).HasEdge id next := by
  have hlt : id < e.space.size := (List.getElem?_eq_some_iff.mp hid).1
  have hr : Reachable c t next := (h.reachable node (List.mem_of_getElem? hid)).tail hs
  rw [visit_eq]
  cases hnew : e.space.idOf? next with
  | some target =>
    have ht := (h.wellFormed.idOf?_iff next target).mp hnew
    exact ⟨h.link hid ht hs, .link (h.wellFormed.length_successors ▸ hlt) target,
      h.hasEdge_link hlt ht⟩
  | none =>
    have hadd : Sound c t (e.add next) := h.add hnew hr hf
    have hid' : (e.add next).space.nodes[id]? = some node := SolutionSpace.getElem?_push next hid
    have ht : (e.add next).space.nodes[e.space.size]? = some next := by
      simp [Exploration.add, SolutionSpace.push, SolutionSpace.size]
    have hlt' : id < (e.add next).space.size := (List.getElem?_eq_some_iff.mp hid').1
    exact ⟨hadd.link hid' ht hs,
      (Grows.add e next).trans (.link (hadd.wellFormed.length_successors ▸ hlt') _),
      hadd.hasEdge_link hlt' ht⟩

/-- Visiting pairs that steps lead to is sound, undoes nothing and leaves an edge to each of them. -/
theorem Sound.visitAll (h : Sound c t e) (hid : e.space.nodes[id]? = some node)
    {nexts : List SpaceNode} (hs : ∀ next ∈ nexts, Step c t node next ∧ Fits c next) :
    Sound c t (nexts.foldl (Exploration.visit id) e) ∧
      Grows e (nexts.foldl (Exploration.visit id) e) ∧
      ∀ next ∈ nexts, (nexts.foldl (Exploration.visit id) e).HasEdge id next := by
  induction nexts generalizing e with
  | nil => exact ⟨h, .refl e, nofun⟩
  | cons next nexts ih =>
    obtain ⟨hstep, hfits⟩ := hs next List.mem_cons_self
    obtain ⟨hsound, hgrows, hedge⟩ := h.visit hid hstep hfits
    obtain ⟨hsound', hgrows', hedges⟩ := ih hsound (hgrows.nodes id node hid)
      fun m hm => hs m (List.mem_cons_of_mem _ hm)
    refine ⟨hsound', hgrows.trans hgrows', fun m hm => ?_⟩
    rcases List.mem_cons.mp hm with rfl | hm
    · exact hedge.mono hgrows'
    · exact hedges m hm

/-! ### Completeness and the rounds -/

/-- The controller agrees with the task about the node at a place, and all its steps are edges. -/
def Expanded (c : Controller) (t : Task) (e : Exploration) (id : Nat) : Prop :=
  ∀ node, e.space.nodes[id]? = some node →
    AgreesAt c t node ∧ ∀ next, Step c t node next → e.HasEdge id next

/-- Every node waits or is expanded. -/
def Complete (c : Controller) (t : Task) (e : Exploration) : Prop :=
  ∀ id, id < e.space.size → id ∈ e.waiting ∨ Expanded c t e id

theorem Expanded.mono {e' : Exploration} (h : Expanded c t e id) (hid : id < e.space.size)
    (hg : Grows e e') : Expanded c t e' id := by
  intro node hnode
  have hold : e.space.nodes[id]? = some e.space.nodes[id] := List.getElem?_eq_getElem hid
  cases hnode.symm.trans (hg.nodes id _ hold)
  obtain ⟨hagrees, hedges⟩ := h _ hold
  exact ⟨hagrees, fun next hs => (hedges next hs).mono hg⟩

/-- A round keeps soundness and completeness, or ends with a fault of the pair that it expands. -/
theorem expand_spec {waiting : List Nat} (hs : Sound c t e) (hc : Complete c t e)
    (hw : e.waiting = id :: waiting) (hid : e.space.nodes[id]? = some node) :
    match expand c t id node { e with waiting } with
    | .ok e' => Sound c t e' ∧ Complete c t e' ∧
      e'.space.size + waiting.length = e.space.size + e'.waiting.length
    | .error fault => PairFault c t node fault := by
  have hnext := nextPairs_spec c t node
  rw [expand_eq]
  cases hp : nextPairs c t node with
  | error fault =>
    rw [hp] at hnext
    exact hnext
  | ok nexts =>
    rw [hp] at hnext
    obtain ⟨hagrees, hmem⟩ := hnext
    have hpop : Sound c t { e with waiting } :=
      { hs with waiting_lt := fun k hk => hs.waiting_lt k (hw ▸ List.mem_cons_of_mem _ hk) }
    obtain ⟨hsound, hgrows, hedges⟩ := hpop.visitAll hid fun next hm =>
      ⟨(hmem next).mp hm, hagrees.fits ((hmem next).mp hm)⟩
    refine ⟨hsound, fun k hk => ?_, hgrows.count⟩
    rcases Nat.lt_or_ge k e.space.size with hlt | hge
    · rcases hc k hlt with hwait | hexp
      · rcases List.mem_cons.mp (hw ▸ hwait) with rfl | hwait
        · -- the node that has just been expanded
          refine .inr fun m hm => ?_
          cases hm.symm.trans (hgrows.nodes k node hid)
          exact ⟨hagrees, fun next hn => hedges next ((hmem next).mpr hn)⟩
        · exact .inl (hgrows.waiting k hwait)
      · exact .inr (Expanded.mono (e := { e with waiting }) hexp hlt hgrows)
    · exact .inl (hgrows.fresh k hge hk)

/-- The rounds keep soundness and completeness. If they end with nodes that wait, then as many nodes
as there were rounds have been expanded. -/
theorem explore_spec (rounds : Nat) (hs : Sound c t e) (hc : Complete c t e) :
    match explore c t rounds e with
    | .ok e' => Sound c t e' ∧ Complete c t e' ∧ (e'.waiting = [] ∨
      rounds + e.space.size + e'.waiting.length = e.waiting.length + e'.space.size)
    | .error fault => ∃ node, Reachable c t node ∧ PairFault c t node fault := by
  induction rounds generalizing e with
  | zero => exact ⟨hs, hc, .inr (by omega)⟩
  | succ rounds ih =>
    rw [explore]
    cases hw : e.waiting with
    | nil => exact ⟨hs, hc, .inl hw⟩
    | cons id waiting =>
      have hlt : id < e.space.size := hs.waiting_lt id (hw ▸ List.mem_cons_self)
      have hid : e.space.nodes[id]? = some e.space.nodes[id] := List.getElem?_eq_getElem hlt
      have hspec := expand_spec hs hc hw hid
      simp only [hid]
      cases hexp : expand c t id e.space.nodes[id] { e with waiting } with
      | error fault =>
        rw [hexp] at hspec
        exact ⟨_, hs.reachable _ (List.mem_of_getElem? hid), hspec⟩
      | ok e₁ =>
        rw [hexp] at hspec
        obtain ⟨hs₁, hc₁, hcount⟩ := hspec
        have hrest := ih hs₁ hc₁
        show match explore c t rounds e₁ with | .ok _ => _ | .error _ => _
        cases hrun : explore c t rounds e₁ with
        | error fault =>
          rw [hrun] at hrest
          exact hrest
        | ok e₂ =>
          rw [hrun] at hrest
          obtain ⟨hs₂, hc₂, hleft⟩ := hrest
          refine ⟨hs₂, hc₂, hleft.imp_right fun h => ?_⟩
          rw [List.length_cons]
          omega

end Exploration

end StrongCyclic.Verification
