import StrongCyclic.Proofs.Synthesis.Leftovers

/-!
How a run comes to its size search. `Plans` follows a run step by step from its start to the first
attempt and says which plan the attempts have in common, down to the paths of the constraints that have
been gathered. Every run either ends before, with no call for a controller, or goes on from there.
-/

namespace StrongCyclic.Synthesis

open Job Search

variable {σ : Type} {s : Settings} {solver : Solver σ} {providers : List (ConstraintProvider σ)}
  {directory : Path} {task : Task} {hints : Hints} {world opened written hinted : World σ}
  {weak undo : Option Exchange}

/-- The run comes to the size search: with this directory, plan, sizes and deadline, in this world. -/
inductive Plans (s : Settings) (solver : Solver σ) (providers : List (ConstraintProvider σ))
    (world : World σ) (weak undo : Option Exchange) :
    Path → SearchPlan → SizeRange → Deadline → World σ → Prop
  | planned {directory model : Path} {task : Task} {hints : Hints} {paths constraints : List Path}
    {opened written hinted cleaned forbidden gathered : World σ}
    (hopen : Returns (opening s) world (directory, task) opened)
    (hgoal : task.goalHoldsInitially = false)
    (hwrite : Returns (writeInstance s task .controller
      (directory.join FileNames.controllerInstance)) opened () written)
    (hhints : HintsRun s solver directory task ⟨written.clock, s.timeLimit⟩ written
      (.ok (.inr hints)) hinted weak)
    (hclean : Returns (clean s directory) hinted model cleaned)
    (hundo : UndoRun s solver directory (directory.join FileNames.controllerInstance)
      ⟨written.clock, s.timeLimit⟩ cleaned (.ok paths) forbidden undo)
    (hgather : Returns (gather s providers directory task) forbidden constraints gathered) :
    Plans s solver providers world weak undo directory
      { controllerModel := model
        instanceFile := directory.join FileNames.controllerInstance
        constraints := hints.constraints ++ paths ++ constraints
        args := s.solver.args
        directory }
      hints.sizes ⟨written.clock, s.timeLimit⟩ gathered

/-- A run ends before the size search, or it goes on with the search from where it has come to it; if it
ends with a result, the search does, and the check of the solution. -/
inductive Searches {α : Type} (s : Settings) (solver : Solver σ)
    (providers : List (ConstraintProvider σ)) (world : World σ) :
    Except Trouble α → World σ → List Exchange → Prop
  | early {result : Except Trouble α} {after : World σ} {before : List Exchange}
    (hargs : ∀ x ∈ before, x.call.args = ["--stats"]) :
    Searches s solver providers world result after before
  | searched {result : Except Trouble α} {after planned searched : World σ} {directory : Path}
    {plan : SearchPlan} {range : SizeRange} {deadline : Deadline}
    {reached : Except Failure SolveOutcome} {weak undo : Option Exchange} {made : List Exchange}
    (hargs : ∀ x ∈ weak.toList ++ undo.toList, x.call.args = ["--stats"])
    (hplans : Plans s solver providers world weak undo directory plan range deadline planned)
    (hsizes : SizesRun solver plan range deadline range.min planned reached searched made)
    (hend : ∀ a, result = .ok a → ∃ outcome check, reached = .ok outcome ∧
      Returns (checkSolution s directory outcome) searched check after) :
    Searches s solver providers world result after (weak.toList ++ undo.toList ++ made)

theorem Searches.map {α β : Type} {result : Except Trouble α} {after : World σ}
    {trace : List Exchange} (h : Searches s solver providers world result after trace) (f : α → β) :
    Searches s solver providers world (result.map f) after trace := by
  cases h with
  | early hargs => exact .early hargs
  | searched hargs hplans hsizes hend =>
    refine .searched hargs hplans hsizes fun b heq => ?_
    obtain ⟨a, rfl, -⟩ := Fallible.map_eq_ok.mp heq
    exact hend a rfl

theorem traced_searchController_plans
    (hopen : Returns (opening s) world (directory, task) opened)
    (hgoal : task.goalHoldsInitially = false)
    (hwrite : Returns (writeInstance s task .controller
      (directory.join FileNames.controllerInstance)) opened () written)
    (hhints : HintsRun s solver directory task ⟨written.clock, s.timeLimit⟩ written
      (.ok (.inr hints)) hinted weak) :
    Traced
      (searchController s solver.recorded (providers.map ConstraintProvider.withRecord) directory
        (directory.join FileNames.controllerInstance) task ⟨written.clock, s.timeLimit⟩ hints)
      (searchController s solver providers directory (directory.join FileNames.controllerInstance)
        task ⟨written.clock, s.timeLimit⟩ hints) hinted
      fun result after trace =>
        Searches s solver providers world result after (weak.toList ++ trace) := by
  have hweak : ∀ x ∈ weak.toList, x.call.args = ["--stats"] :=
    fun x hx => hhints.args x (Option.mem_toList.mp hx)
  simp only [searchController_eq, planSearch, bind_assoc, pure_bind]
  refine .bind_silent (withRecord_clean s directory)
    (fun e after _ => .early (by simpa using hweak)) fun model cleaned hclean => ?_
  refine .bind (traced_forbidUndo s solver directory _ _ cleaned) ?_ ?_
  · rintro e after _ - ⟨undo, rfl, hundo⟩
    exact .early (List.forall_mem_append.mpr
      ⟨hweak, fun x hx => hundo.args x (Option.mem_toList.mp hx)⟩)
  rintro paths forbidden _ - ⟨undo, rfl, hundo⟩
  have hargs : ∀ x ∈ weak.toList ++ undo.toList, x.call.args = ["--stats"] :=
    List.forall_mem_append.mpr ⟨hweak, fun x hx => hundo.args x (Option.mem_toList.mp hx)⟩
  refine .bind_silent (by rw [withRecord_asTrouble, withRecord_gather])
    (fun e after _ => .early (by simpa using hargs)) fun constraints planned hgather => ?_
  rw [asTrouble, returns_mapError] at hgather
  have hplans := Plans.planned hopen hgoal hwrite hhints hclean hundo hgather
  refine .bind (.mapError (R := fun result after made => ∃ reached, result = reached.mapError
      Trouble.failure ∧ SizesRun solver _ hints.sizes ⟨written.clock, s.timeLimit⟩ hints.sizes.min
        planned reached after made)
    ((traced_sizesFrom solver _ hints.sizes _ hints.sizes.min planned).imp
      fun result after made hsizes => ⟨result, rfl, hsizes⟩)) ?_ ?_
  · rintro e after made - ⟨reached, heq, hsizes⟩
    rw [← List.append_assoc]
    exact .searched hargs hplans hsizes (by simp)
  rintro outcome searched made - ⟨reached, heq, hsizes⟩
  cases reached with
  | error failure => cases heq
  | ok outcome =>
    cases heq
    refine .bind_silent (withRecord_checkSolution s directory outcome) ?_ ?_
    · intro e after _
      rw [List.append_nil, ← List.append_assoc]
      exact .searched hargs hplans hsizes (by simp)
    · intro check after hcheck
      refine traced_pure ?_
      rw [List.append_nil, ← List.append_assoc]
      exact .searched hargs hplans hsizes fun _ _ => ⟨outcome, check, rfl, hcheck⟩

theorem traced_synthesize_plans (hopen : Returns (opening s) world (directory, task) opened)
    (hgoal : task.goalHoldsInitially = false) :
    Traced
      (synthesize s solver.recorded (providers.map ConstraintProvider.withRecord) directory task)
      (synthesize s solver providers directory task) opened fun result after trace =>
        Searches s solver providers world result after trace := by
  refine .bind_silent (by simp) (fun e after _ => .early nofun) fun _ written hwrite => ?_
  rw [returns_during] at hwrite
  refine .bind_get (fun _ => rfl) ?_
  refine .bind (traced_findHints s solver directory task ⟨written.clock, s.timeLimit⟩ written) ?_ ?_
  · rintro e after _ - ⟨weak, rfl, hhints⟩
    exact .early fun x hx => hhints.args x (Option.mem_toList.mp hx)
  rintro found hinted _ - ⟨weak, rfl, hhints⟩
  cases found with
  | inl outcome =>
    refine traced_pure (.early ?_)
    simpa using fun x hx => hhints.args x hx
  | inr hints => exact traced_searchController_plans hopen hgoal hwrite hhints

/-- Every run ends before the size search or goes on from where it has come to it. -/
theorem traced_solve_plans (s : Settings) (solver : Solver σ)
    (providers : List (ConstraintProvider σ)) (world : World σ) :
    Traced (solve s solver.recorded (providers.map ConstraintProvider.withRecord))
      (solve s solver providers) world fun result after trace =>
        Searches s solver providers world result after trace := by
  rw [solve_eq, solve_eq]
  refine .bind_get (fun _ => rfl) ?_
  refine .bind_silent (withRecord_opening s) (fun e after _ => .early nofun) ?_
  rintro ⟨directory, task⟩ opened hopen
  dsimp only
  cases hgoal : task.goalHoldsInitially with
  | true =>
    rw [if_pos rfl, if_pos rfl, pure_bind, pure_bind]
    exact .bind_get (fun _ => rfl) (traced_pure (.early nofun))
  | false =>
    rw [if_neg Bool.false_ne_true, if_neg Bool.false_ne_true]
    refine .bind (traced_synthesize_plans hopen hgoal) (fun e after trace _ hsearches => ?_) ?_
    · exact hsearches.map (reportOn world.clock task · after.clock)
    · intro findings after trace _ hsearches
      refine .bind_get (fun _ => rfl) (traced_pure ?_)
      rw [List.append_nil]
      exact hsearches.map (reportOn world.clock task · after.clock)

end StrongCyclic.Synthesis
