import StrongCyclic.Proofs.Verification.Exploration

/-!
Verification simulates exactly. It succeeds just if the controller agrees with the task in all pairs
of its runs, it fails with a fault that shows in one of them, and the solution space that it returns
has the pairs of the runs as its nodes and the steps between them as its edges.
-/

namespace StrongCyclic.Verification

variable {c : Controller} {t : Task}

/-- A solution space that holds the pairs of all runs, each once and the first of them in front, and
lists as the successors of each those that a step leads to, each once. -/
structure IsSimulation (c : Controller) (t : Task) (space : SolutionSpace) : Prop
    extends space.WellFormed where
  root : space.nodes[0]? = some (root c t)
  nodup_nodes : space.nodes.Nodup
  mem_nodes_iff : ∀ node, node ∈ space.nodes ↔ Reachable c t node
  mem_successorsOf_iff : ∀ id node target, space.nodes[id]? = some node →
    (target ∈ space.successorsOf id ↔
      ∃ next, space.nodes[target]? = some next ∧ Step c t node next)

namespace Exploration

variable {e : Exploration}

/-- When no node waits, all nodes are expanded. -/
theorem Complete.expanded (hc : Complete c t e) (hw : e.waiting = []) {id : Nat}
    (hid : id < e.space.size) : Expanded c t e id := by
  rcases hc id hid with hwait | hexp
  · rw [hw] at hwait
    exact nomatch hwait
  · exact hexp

theorem Complete.mem_nodes (hs : Sound c t e) (hc : Complete c t e) (hw : e.waiting = [])
    {node : SpaceNode} (hr : Reachable c t node) : node ∈ e.space.nodes := by
  induction hr with
  | refl => exact List.mem_of_getElem? hs.root
  | tail _ hstep ih =>
    obtain ⟨id, hid⟩ := List.mem_iff_getElem?.mp ih
    obtain ⟨-, hedges⟩ := hc.expanded hw (List.getElem?_eq_some_iff.mp hid).1 _ hid
    obtain ⟨target, -, ht⟩ := hedges _ hstep
    exact List.mem_of_getElem? ht

/-- An exploration in which no node waits has found all runs and shows that they agree. -/
theorem Complete.agrees (hs : Sound c t e) (hc : Complete c t e) (hw : e.waiting = []) :
    Agrees c t := by
  refine ⟨hs.fits _ (List.mem_of_getElem? hs.root), fun node hr => ?_⟩
  obtain ⟨id, hid⟩ := List.mem_iff_getElem?.mp (hc.mem_nodes hs hw hr)
  exact (hc.expanded hw (List.getElem?_eq_some_iff.mp hid).1 node hid).1

theorem Complete.isSimulation (hs : Sound c t e) (hc : Complete c t e) (hw : e.waiting = []) :
    IsSimulation c t e.space where
  toWellFormed := hs.wellFormed
  root := hs.root
  nodup_nodes := hs.wellFormed.nodup_nodes
  mem_nodes_iff node := ⟨hs.reachable node, hc.mem_nodes hs hw⟩
  mem_successorsOf_iff id node target hid := by
    refine ⟨hs.step id node target hid, ?_⟩
    rintro ⟨next, ht, hstep⟩
    obtain ⟨-, hedges⟩ := hc.expanded hw (List.getElem?_eq_some_iff.mp hid).1 node hid
    obtain ⟨target', hmem, ht'⟩ := hedges next hstep
    -- the edge goes to the only place of the pair
    have hplace := (hs.wellFormed.idOf?_iff next target).mpr ht
    rw [(hs.wellFormed.idOf?_iff next target').mpr ht'] at hplace
    exact Option.some.inj hplace ▸ hmem

theorem Complete.start (root : SpaceNode) : Complete c t (.start root) := by
  intro id hid
  exact .inl (List.mem_singleton.mpr (Nat.lt_one_iff.mp hid))

end Exploration

open Exploration in
/-- The rounds are enough: the exploration from the start leaves no node waiting. -/
theorem explore_start_spec (h : Fits c (root c t)) :
    match explore c t (pairBound c t) (.start (root c t)) with
    | .ok e => Sound c t e ∧ Complete c t e ∧ e.waiting = []
    | .error fault => Disagrees c t fault := by
  have hspec := explore_spec (pairBound c t) (Sound.start h) (Complete.start (root c t))
  cases hrun : explore c t (pairBound c t) (.start (root c t)) with
  | error fault =>
    rw [hrun] at hspec
    obtain ⟨node, hr, hfault⟩ := hspec
    exact .pair hr hfault
  | ok e =>
    rw [hrun] at hspec
    obtain ⟨hs, hc, hleft⟩ := hspec
    refine ⟨hs, hc, ?_⟩
    rcases hleft with hw | hcount
    · exact hw
    · have hbound : e.space.size ≤ pairBound c t :=
        length_le_pairBound hs.wellFormed.nodup_nodes hs.reachable hs.fits
      have hone : (Exploration.start (root c t)).space.size = 1 := rfl
      have hone' : (Exploration.start (root c t)).waiting.length = 1 := rfl
      exact List.eq_nil_of_length_eq_zero (by omega)

theorem solutionSpace_spec (c : Controller) (t : Task) :
    match solutionSpace c t with
    | .ok space => Agrees c t ∧ IsSimulation c t space
    | .error fault => Disagrees c t fault := by
  unfold solutionSpace
  cases hd : c.state? c.initial with
  | none => exact .noInitialState hd
  | some declared =>
    dsimp only
    cases he : t.initial.entails declared with
    | false => exact .initialMismatch hd he
    | true =>
      have hspec := explore_start_spec (c := c) (t := t) ⟨declared, hd, he⟩
      rw [if_pos rfl]
      change match explore c t (pairBound c t) (.start (root c t)) >>= fun e => pure e.space with
        | .ok _ => _
        | .error _ => _
      cases hrun : explore c t (pairBound c t) (.start (root c t)) with
      | error fault =>
        rw [hrun] at hspec
        exact hspec
      | ok e =>
        rw [hrun] at hspec
        obtain ⟨hs, hc, hw⟩ := hspec
        exact ⟨hc.agrees hs hw, hc.isSimulation hs hw⟩

/-- The verdict is read off the solution space. -/
theorem verify_eq (c : Controller) (t : Task) :
    verify c t = (solutionSpace c t).map fun space =>
      { strongCyclic := (space.distancesTo c.goal).all Option.isSome
        distances := space.distancesTo c.goal
        space } := by
  unfold verify
  cases solutionSpace c t <;> rfl

theorem solutionSpace_eq_of_fits (h : Fits c (root c t)) :
    solutionSpace c t =
      (explore c t (pairBound c t) (.start (root c t))).map Exploration.space := by
  obtain ⟨declared, hdeclared, hentails⟩ := h
  change c.state? c.initial = some declared at hdeclared
  change t.initial.entails declared = true at hentails
  rw [solutionSpace, hdeclared]
  simp only [hentails, if_true]
  rfl

theorem disagrees_of_verify {fault : Fault} (h : verify c t = .error fault) :
    Disagrees c t fault := by
  have hspec := solutionSpace_spec c t
  rw [verify_eq] at h
  cases hspace : solutionSpace c t with
  | ok space =>
    rw [hspace] at h
    cases h
  | error fault' =>
    rw [hspace] at h hspec
    cases h
    exact hspec

theorem exists_verify_of_agrees (h : Agrees c t) : ∃ v, verify c t = .ok v := by
  cases hv : verify c t with
  | ok v => exact ⟨v, rfl⟩
  | error fault => exact absurd h (disagrees_of_verify hv).not_agrees

/-- Verification succeeds just if the controller agrees with the task in every pair of its runs.
The space that it then returns is their simulation, and the fault that it else reports shows in one
of them. -/
theorem verify_simulates_exactly (c : Controller) (t : Task) :
    ((∃ v, verify c t = .ok v) ↔ Agrees c t) ∧
      match verify c t with
      | .ok v => IsSimulation c t v.space
      | .error fault => Disagrees c t fault := by
  have hspec := solutionSpace_spec c t
  rw [verify_eq]
  cases hspace : solutionSpace c t with
  | error fault =>
    rw [hspace] at hspec
    exact ⟨⟨fun ⟨_, hv⟩ => (nomatch hv), fun ha => absurd ha hspec.not_agrees⟩, hspec⟩
  | ok space =>
    rw [hspace] at hspec
    exact ⟨⟨fun _ => hspec.1, fun _ => ⟨_, rfl⟩⟩, hspec.2⟩

end StrongCyclic.Verification
