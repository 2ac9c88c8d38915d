import StrongCyclic.Proofs.SolutionSpace.LookUps
import StrongCyclic.Proofs.Verification.Exactness

/-!
Verification with every look at a list by place checked. Against any task it gives what verification
gives: the nodes that wait have a place in the solution space, and so have the ends of the edges.
-/

namespace StrongCyclic.Verification

variable {c : Controller} {t : Task}

/-- Expands the nodes that wait, unless one of them has no place among the nodes. -/
def explore? (c : Controller) (t : Task) : Nat → Exploration → Option (Except Fault Exploration)
  | 0, e => some (.ok e)
  | rounds + 1, e =>
    match e.waiting with
    | [] => some (.ok e)
    | id :: waiting =>
      match e.space.nodes[id]? with
      | none => none
      | some node =>
        match expand c t id node { e with waiting } with
        | .error fault => some (.error fault)
        | .ok e => explore? c t rounds e

/-- The solution space of a controller, every place being checked. -/
def solutionSpace? (c : Controller) (t : Task) : Option (Except Fault SolutionSpace) :=
  match c.state? c.initial with
  | none => some (.error .noInitialState)
  | some declared =>
    if t.initial.entails declared then
      (explore? c t (pairBound c t) (.start ⟨c.initial, t.initial⟩)).map (·.map Exploration.space)
    else some (.error (.initialMismatch t.initial c.initial declared))

/-- Verifies a controller against a task, every place being checked. -/
def verify? (c : Controller) (t : Task) : Option (Except Fault Verdict) :=
  match solutionSpace? c t with
  | none => none
  | some (.error fault) => some (.error fault)
  | some (.ok space) =>
    (space.distancesTo? c.goal).map fun distances =>
      .ok { strongCyclic := distances.all Option.isSome, distances, space }

open Exploration in
theorem explore?_eq {e : Exploration} (rounds : Nat) (hs : Sound c t e) (hc : Complete c t e) :
    explore? c t rounds e = some (explore c t rounds e) := by
  induction rounds generalizing e with
  | zero => rfl
  | succ rounds ih =>
    rw [explore?, explore]
    cases hw : e.waiting with
    | nil => rfl
    | cons id waiting =>
      have hlt : id < e.space.size := hs.waiting_lt id (hw ▸ List.mem_cons_self)
      have hid : e.space.nodes[id]? = some e.space.nodes[id] := List.getElem?_eq_getElem hlt
      have hspec := expand_spec hs hc hw hid
      simp only [hid]
      cases hexp : expand c t id e.space.nodes[id] { e with waiting } with
      | error fault => rfl
      | ok e₁ =>
        rw [hexp] at hspec
        exact ih hspec.1 hspec.2.1

theorem solutionSpace?_eq (c : Controller) (t : Task) :
    solutionSpace? c t = some (solutionSpace c t) := by
  unfold solutionSpace? solutionSpace
  cases hd : c.state? c.initial with
  | none => rfl
  | some declared =>
    dsimp only
    cases he : t.initial.entails declared with
    | false => rfl
    | true =>
      have hfits : Fits c (root c t) := ⟨declared, hd, he⟩
      have hexplore := explore?_eq (pairBound c t) (Exploration.Sound.start hfits)
        (Exploration.Complete.start (root c t))
      rw [root] at hexplore
      rw [if_pos rfl, if_pos rfl, hexplore]
      cases explore c t (pairBound c t) (.start ⟨c.initial, t.initial⟩) <;> rfl

/-- Verification looks at no place outside its lists. -/
theorem verify?_eq (c : Controller) (t : Task) : verify? c t = some (verify c t) := by
  have hspec := solutionSpace_spec c t
  rw [verify?, solutionSpace?_eq, verify_eq]
  cases hspace : solutionSpace c t with
  | error fault => rfl
  | ok space =>
    rw [hspace] at hspec
    simp only [hspec.2.toWellFormed.distancesTo?_eq c.goal]
    rfl

end StrongCyclic.Verification
