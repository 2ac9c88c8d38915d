import StrongCyclic.Proofs.Search.Attempt
import StrongCyclic.Proofs.Synthesis.Silent
import StrongCyclic.Proofs.Synthesis.Steps

/-!
The calls of a run. A run makes no call if the goal holds initially. Else it makes one call for a weak
plan, if weak plans are enabled, which may end it; then one for undo pairs, if a program for them is
set; then the calls of the size search, all with the same inputs in the same order. A call or a step
that fails is the last one, and the run ends with its error. `SolveRun` lists the ways a run can go,
and `traced_solve` says that every run goes one of them.
-/

namespace StrongCyclic

open Job

variable {σ : Type}

namespace Synthesis

open Search

variable {s : Settings} {solver : Solver σ} {providers : List (ConstraintProvider σ)}
  {directory instanceFile : Path} {task : Task} {deadline : Deadline} {world : World σ}

/-- A call within a deadline, as it is recorded. -/
def exchangeAt (deadline : Deadline) (call : SolverCall) (world : World σ)
    (reply : Except Failure SolverRun) : Exchange :=
  ⟨call, deadline.remaining world.clock, world.clock, reply⟩

/-- A call within a deadline comes first. -/
theorem traced_call {β : Type} {note : Note} {call : SolverCall}
    {next' : SolverRun → Job (Recorded σ) Trouble β} {next : SolverRun → Job σ Trouble β}
    {R : Except Trouble β → World σ → List Exchange → Prop}
    (hfails : ∀ failure after, Fails (solver call (deadline.remaining world.clock)) world failure
      after → R (.error (.during note (.failure failure))) after
        [exchangeAt deadline call world (.error failure)])
    (hreplies : ∀ run after, Returns (solver call (deadline.remaining world.clock)) world run after →
      Traced (next' run) (next run) after fun result last more =>
        R result last (exchangeAt deadline call world (.ok run) :: more)) :
    Traced (do
        let seen ← get
        let run ← during note (solver.recorded call (deadline.remaining seen.clock))
        next' run)
      (do
        let seen ← get
        let run ← during note (solver call (deadline.remaining seen.clock))
        next run) world R := by
  refine .bind_get (fun _ => rfl) (.bind (.mapError
    (R := fun result after trace => ∃ reply, result = reply.mapError (.during note ∘ .failure) ∧
      (solver call (deadline.remaining world.clock)).run.run world = (reply, after) ∧
      trace = [exchangeAt deadline call world reply])
    ⟨_, fun _ => rfl, _, rfl, rfl, rfl⟩) ?_ ?_)
  · rintro e between trace - ⟨reply, heq, hrun, rfl⟩
    cases reply with
    | error failure =>
      cases heq
      exact hfails failure between hrun
    | ok run => cases heq
  · rintro run between trace - ⟨reply, heq, hrun, rfl⟩
    cases reply with
    | error failure => cases heq
    | ok run =>
      cases heq
      exact hreplies run between hrun

/-! ### The weak plan -/

/-- How the hints are found, with the call for a weak plan, if it is made. -/
inductive HintsRun (s : Settings) (solver : Solver σ) (directory : Path) (task : Task)
    (deadline : Deadline) (world : World σ) :
    Except Trouble (SolveOutcome ⊕ Hints) → World σ → Option Exchange → Prop
  | disabled (hdisabled : s.backbone.enabled = false) :
    HintsRun s solver directory task deadline world (.ok (.inr (.ofSettings s))) world none
  | unprepared {e : Trouble} {after : World σ} (henabled : s.backbone.enabled = true)
    (hfails : Fails (weakPlanCall s directory task) world e after) :
    HintsRun s solver directory task deadline world (.error e) after none
  | failed {call : SolverCall} {failure : Failure} {between after : World σ}
    (henabled : s.backbone.enabled = true)
    (hcall : Returns (weakPlanCall s directory task) world call between)
    (hfails : Fails (solver call (deadline.remaining between.clock)) between failure after) :
    HintsRun s solver directory task deadline world
      (.error (.during .estimatingBackbone (.failure failure))) after
      (some (exchangeAt deadline call between (.error failure)))
  | broken {call : SolverCall} {run : SolverRun} {e : Trouble} {between answered after : World σ}
    (henabled : s.backbone.enabled = true)
    (hcall : Returns (weakPlanCall s directory task) world call between)
    (hreply : Returns (solver call (deadline.remaining between.clock)) between run answered)
    (hfails : Fails (useWeakReply s directory run) answered e after) :
    HintsRun s solver directory task deadline world (.error e) after
      (some (exchangeAt deadline call between (.ok run)))
  | settled {call : SolverCall} {run : SolverRun} {found : SolveOutcome ⊕ Hints}
    {between answered after : World σ} (henabled : s.backbone.enabled = true)
    (hcall : Returns (weakPlanCall s directory task) world call between)
    (hreply : Returns (solver call (deadline.remaining between.clock)) between run answered)
    (huse : Returns (useWeakReply s directory run) answered found after)
    (hfound : Concludes s directory run found) :
    HintsRun s solver directory task deadline world (.ok found) after
      (some (exchangeAt deadline call between (.ok run)))

theorem traced_findHints (s : Settings) (solver : Solver σ) (directory : Path) (task : Task)
    (deadline : Deadline) (world : World σ) :
    Traced (findHints s solver.recorded directory task deadline)
      (findHints s solver directory task deadline) world fun result after trace =>
        ∃ weak, trace = weak.toList ∧
          HintsRun s solver directory task deadline world result after weak := by
  rw [findHints_eq, findHints_eq]
  cases henabled : s.backbone.enabled with
  | false => exact traced_pure ⟨none, rfl, .disabled henabled⟩
  | true =>
    refine .bind_silent (by simp) (fun e after hfails => ⟨none, rfl, .unprepared henabled hfails⟩)
      fun call between hcall => ?_
    refine traced_call
      (fun failure after hfails => ⟨some _, rfl, .failed henabled hcall hfails⟩)
      fun run answered hreply => ?_
    refine traced_silent (withRecord_useWeakReply s directory run)
      (fun e after hfails => ⟨some _, rfl, .broken henabled hcall hreply hfails⟩)
      fun found after huse => ?_
    exact ⟨some _, rfl, .settled henabled hcall hreply huse (useWeakReply_returns huse)⟩

/-! ### Undo pairs -/

/-- How undo pairs are forbidden, with the call for them, if it is made. -/
inductive UndoRun (s : Settings) (solver : Solver σ) (directory instanceFile : Path)
    (deadline : Deadline) (world : World σ) :
    Except Trouble (List Path) → World σ → Option Exchange → Prop
  | unset (hunset : s.constraints.undoProgram = none) :
    UndoRun s solver directory instanceFile deadline world (.ok []) world none
  | unprepared {program : Path} {e : Trouble} {after : World σ}
    (hset : s.constraints.undoProgram = some program)
    (hfails : Fails (Workspace.locate program) world e after) :
    UndoRun s solver directory instanceFile deadline world (.error e) after none
  | failed {program path : Path} {failure : Failure} {between after : World σ}
    (hset : s.constraints.undoProgram = some program)
    (hlocate : Returns (Workspace.locate program) world path between)
    (hfails : Fails (solver (undoCall directory instanceFile path)
      (deadline.remaining between.clock)) between failure after) :
    UndoRun s solver directory instanceFile deadline world
      (.error (.during .detectingUndo (.failure failure))) after
      (some (exchangeAt deadline (undoCall directory instanceFile path) between (.error failure)))
  | broken {program path : Path} {run : SolverRun} {e : Trouble} {between answered after : World σ}
    (hset : s.constraints.undoProgram = some program)
    (hlocate : Returns (Workspace.locate program) world path between)
    (hreply : Returns (solver (undoCall directory instanceFile path)
      (deadline.remaining between.clock)) between run answered)
    (hfails : Fails (useUndoReply s directory run) answered e after) :
    UndoRun s solver directory instanceFile deadline world (.error e) after
      (some (exchangeAt deadline (undoCall directory instanceFile path) between (.ok run)))
  | settled {program path : Path} {run : SolverRun} {between answered after : World σ}
    (hset : s.constraints.undoProgram = some program)
    (hlocate : Returns (Workspace.locate program) world path between)
    (hreply : Returns (solver (undoCall directory instanceFile path)
      (deadline.remaining between.clock)) between run answered)
    (huse : Returns (useUndoReply s directory run) answered
      [directory.join (FileNames.undoConstraints ++ ".lp")] after) :
    UndoRun s solver directory instanceFile deadline world
      (.ok [directory.join (FileNames.undoConstraints ++ ".lp")]) after
      (some (exchangeAt deadline (undoCall directory instanceFile path) between (.ok run)))

theorem traced_forbidUndo (s : Settings) (solver : Solver σ) (directory instanceFile : Path)
    (deadline : Deadline) (world : World σ) :
    Traced (forbidUndo s solver.recorded directory instanceFile deadline)
      (forbidUndo s solver directory instanceFile deadline) world fun result after trace =>
        ∃ undo, trace = undo.toList ∧
          UndoRun s solver directory instanceFile deadline world result after undo := by
  rw [forbidUndo_eq, forbidUndo_eq]
  cases hprogram : s.constraints.undoProgram with
  | none => exact traced_pure ⟨none, rfl, .unset hprogram⟩
  | some program =>
    refine .bind_silent (by simp) (fun e after hfails => ⟨none, rfl, .unprepared hprogram hfails⟩)
      fun path between hlocate => ?_
    refine traced_call
      (fun failure after hfails => ⟨some _, rfl, .failed hprogram hlocate hfails⟩)
      fun run answered hreply => ?_
    refine traced_silent (withRecord_useUndoReply s directory run)
      (fun e after hfails => ⟨some _, rfl, .broken hprogram hlocate hreply hfails⟩)
      fun paths after huse => ?_
    obtain rfl := useUndoReply_returns huse
    exact ⟨some _, rfl, .settled hprogram hlocate hreply huse⟩

/-! ### The size search -/

/-- What every attempt of a run has in common. -/
structure IsPlan (s : Settings) (providers : List (ConstraintProvider σ)) (directory instanceFile : Path)
    (task : Task) (hints : Hints) (undo : List Path) (plan : SearchPlan) : Prop where
  instanceFile : plan.instanceFile = instanceFile
  controllerModel : ∃ name, s.solver.controllerModel.fileName? = some name ∧
    plan.controllerModel = directory.join name
  constraints : ∃ static provided, Loaded s static ∧ Provided providers task provided ∧
    plan.constraints =
      hints.constraints ++ undo ++ numberedPaths directory 1 (static ++ provided.flatten)
  args : plan.args = s.solver.args
  directory : plan.directory = directory

/-- How the search is planned, with the call for undo pairs, if it is made. -/
inductive PlanRun (s : Settings) (solver : Solver σ) (providers : List (ConstraintProvider σ))
    (directory instanceFile : Path) (task : Task) (deadline : Deadline) (hints : Hints)
    (world : World σ) : Except Trouble SearchPlan → World σ → Option Exchange → Prop
  | uncleaned {e : Trouble} {after : World σ} (hfails : Fails (clean s directory) world e after) :
    PlanRun s solver providers directory instanceFile task deadline hints world (.error e) after none
  | stopped {model : Path} {e : Trouble} {cleaned after : World σ} {undo : Option Exchange}
    (hclean : Returns (clean s directory) world model cleaned)
    (hundo : UndoRun s solver directory instanceFile deadline cleaned (.error e) after undo) :
    PlanRun s solver providers directory instanceFile task deadline hints world (.error e) after undo
  | ungathered {model : Path} {paths : List Path} {failure : Failure}
    {cleaned between after : World σ} {undo : Option Exchange}
    (hclean : Returns (clean s directory) world model cleaned)
    (hundo : UndoRun s solver directory instanceFile deadline cleaned (.ok paths) between undo)
    (hfails : Fails (gather s providers directory task) between failure after) :
    PlanRun s solver providers directory instanceFile task deadline hints world
      (.error (.failure failure)) after undo
  | planned {model : Path} {paths constraints : List Path} {plan : SearchPlan}
    {cleaned between after : World σ} {undo : Option Exchange}
    (hclean : Returns (clean s directory) world model cleaned)
    (hundo : UndoRun s solver directory instanceFile deadline cleaned (.ok paths) between undo)
    (hgather : Returns (gather s providers directory task) between constraints after)
    (hplan : IsPlan s providers directory instanceFile task hints paths plan) :
    PlanRun s solver providers directory instanceFile task deadline hints world (.ok plan) after undo

theorem traced_planSearch (s : Settings) (solver : Solver σ)
    (providers : List (ConstraintProvider σ)) (directory instanceFile : Path) (task : Task)
    (deadline : Deadline) (hints : Hints) (world : World σ) :
    Traced (planSearch s solver.recorded (providers.map ConstraintProvider.withRecord) directory
        instanceFile task deadline hints)
      (planSearch s solver providers directory instanceFile task deadline hints) world
      fun result after trace => ∃ undo, trace = undo.toList ∧
        PlanRun s solver providers directory instanceFile task deadline hints world result after
          undo := by
  refine .bind_silent (withRecord_clean s directory)
    (fun e after hfails => ⟨none, rfl, .uncleaned hfails⟩) fun model cleaned hclean => ?_
  refine .bind (traced_forbidUndo s solver directory instanceFile deadline cleaned) ?_ ?_
  · rintro e after _ - ⟨undo, rfl, hundo⟩
    exact ⟨undo, rfl, .stopped hclean hundo⟩
  rintro paths between _ - ⟨undo, rfl, hundo⟩
  refine .bind_silent (by rw [withRecord_asTrouble, withRecord_gather]) ?_ ?_
  · intro e after hfails
    obtain ⟨failure, hgather, rfl⟩ := fails_mapError.mp hfails
    exact ⟨undo, List.append_nil _, .ungathered hclean hundo hgather⟩
  intro constraints after hgather
  rw [asTrouble, returns_mapError] at hgather
  obtain ⟨name, hname, hmodel⟩ := clean_returns hclean
  obtain ⟨static, provided, hstatic, hprovided, hpaths⟩ := gather_returns hgather
  refine traced_pure ⟨undo, List.append_nil _, .planned hclean hundo hgather
    ⟨rfl, ⟨name, hname, hmodel⟩, ⟨static, provided, hstatic, hprovided, ?_⟩, rfl, rfl⟩⟩
  rw [hpaths]

/-- How a controller is searched for, with the call for undo pairs, if it is made, and the calls for
controllers. -/
inductive ControllerRun (s : Settings) (solver : Solver σ) (providers : List (ConstraintProvider σ))
    (directory instanceFile : Path) (task : Task) (deadline : Deadline) (hints : Hints)
    (world : World σ) :
    Except Trouble Findings → World σ → Option Exchange → List Exchange → Prop
  | unplanned {e : Trouble} {after : World σ} {undo : Option Exchange}
    (hplan : PlanRun s solver providers directory instanceFile task deadline hints world (.error e)
      after undo) :
    ControllerRun s solver providers directory instanceFile task deadline hints world (.error e)
      after undo []
  | failed {plan : SearchPlan} {failure : Failure} {planned after : World σ}
    {undo : Option Exchange} {made : List Exchange}
    (hplan : PlanRun s solver providers directory instanceFile task deadline hints world (.ok plan)
      planned undo)
    (hsizes : SizesRun solver plan hints.sizes deadline hints.sizes.min planned (.error failure)
      after made) :
    ControllerRun s solver providers directory instanceFile task deadline hints world
      (.error (.failure failure)) after undo made
  | unchecked {plan : SearchPlan} {outcome : SolveOutcome} {e : Trouble}
    {planned searched after : World σ} {undo : Option Exchange} {made : List Exchange}
    (hplan : PlanRun s solver providers directory instanceFile task deadline hints world (.ok plan)
      planned undo)
    (hsizes : SizesRun solver plan hints.sizes deadline hints.sizes.min planned (.ok outcome)
      searched made)
    (hfails : Fails (checkSolution s directory outcome) searched e after) :
    ControllerRun s solver providers directory instanceFile task deadline hints world (.error e)
      after undo made
  | done {plan : SearchPlan} {outcome : SolveOutcome} {check : Option RunCheck}
    {planned searched after : World σ} {undo : Option Exchange} {made : List Exchange}
    (hplan : PlanRun s solver providers directory instanceFile task deadline hints world (.ok plan)
      planned undo)
    (hsizes : SizesRun solver plan hints.sizes deadline hints.sizes.min planned (.ok outcome)
      searched made)
    (hcheck : Returns (checkSolution s directory outcome) searched check after) :
    ControllerRun s solver providers directory instanceFile task deadline hints world
      (.ok ⟨outcome, hints.backbone, check⟩) after undo made

theorem traced_searchController (s : Settings) (solver : Solver σ)
    (providers : List (ConstraintProvider σ)) (directory instanceFile : Path) (task : Task)
    (deadline : Deadline) (hints : Hints) (world : World σ) :
    Traced (searchController s solver.recorded (providers.map ConstraintProvider.withRecord)
        directory instanceFile task deadline hints)
      (searchController s solver providers directory instanceFile task deadline hints) world
      fun result after trace => ∃ undo made, trace = undo.toList ++ made ∧
        ControllerRun s solver providers directory instanceFile task deadline hints world result
          after undo made := by
  rw [searchController_eq, searchController_eq]
  refine .bind (traced_planSearch s solver providers directory instanceFile task deadline hints
    world) ?_ ?_
  · rintro e after _ - ⟨undo, rfl, hplan⟩
    exact ⟨undo, [], (List.append_nil _).symm, .unplanned hplan⟩
  rintro plan planned _ - ⟨undo, rfl, hplan⟩
  refine .bind (.mapError (R := fun result after made => ∃ reached, result = reached.mapError
      Trouble.failure ∧ SizesRun solver plan hints.sizes deadline hints.sizes.min planned reached
        after made)
    ((traced_sizesFrom solver plan hints.sizes deadline hints.sizes.min planned).imp
      fun result after made hsizes => ⟨result, rfl, hsizes⟩)) ?_ ?_
  · rintro e after made - ⟨reached, heq, hsizes⟩
    cases reached with
    | error failure =>
      cases heq
      exact ⟨undo, made, rfl, .failed hplan hsizes⟩
    | ok outcome => cases heq
  rintro outcome searched made - ⟨reached, heq, hsizes⟩
  cases reached with
  | error failure => cases heq
  | ok outcome =>
    cases heq
    refine .bind_silent (withRecord_checkSolution s directory outcome)
      (fun e after hfails => ⟨undo, made, by simp, .unchecked hplan hsizes hfails⟩)
      fun check after hcheck => ?_
    exact traced_pure ⟨undo, made, by simp, .done hplan hsizes hcheck⟩

/-! ### The run -/

/-- How a controller is looked for, if the goal does not hold initially. -/
inductive SynthesisRun (s : Settings) (solver : Solver σ) (providers : List (ConstraintProvider σ))
    (directory : Path) (task : Task) (world : World σ) :
    Except Trouble Findings → World σ → Option Exchange → Option Exchange → List Exchange → Prop
  | unwritten {e : Trouble} {after : World σ}
    (hfails : Fails (during (.writingInstance (directory.join FileNames.controllerInstance))
      (writeInstance s task .controller (directory.join FileNames.controllerInstance))) world e
      after) :
    SynthesisRun s solver providers directory task world (.error e) after none none []
  | unhinted {e : Trouble} {written after : World σ} {weak : Option Exchange}
    (hwrite : Returns (writeInstance s task .controller
      (directory.join FileNames.controllerInstance)) world () written)
    (hhints : HintsRun s solver directory task ⟨written.clock, s.timeLimit⟩ written (.error e) after
      weak) :
    SynthesisRun s solver providers directory task world (.error e) after weak none []
  | settled {outcome : SolveOutcome} {written after : World σ} {weak : Option Exchange}
    (hwrite : Returns (writeInstance s task .controller
      (directory.join FileNames.controllerInstance)) world () written)
    (hhints : HintsRun s solver directory task ⟨written.clock, s.timeLimit⟩ written
      (.ok (.inl outcome)) after weak) :
    SynthesisRun s solver providers directory task world (.ok { outcome }) after weak none []
  | searched {hints : Hints} {result : Except Trouble Findings} {written hinted after : World σ}
    {weak undo : Option Exchange} {made : List Exchange}
    (hwrite : Returns (writeInstance s task .controller
      (directory.join FileNames.controllerInstance)) world () written)
    (hhints : HintsRun s solver directory task ⟨written.clock, s.timeLimit⟩ written
      (.ok (.inr hints)) hinted weak)
    (hsearch : ControllerRun s solver providers directory
      (directory.join FileNames.controllerInstance) task ⟨written.clock, s.timeLimit⟩ hints hinted
      result after undo made) :
    SynthesisRun s solver providers directory task world result after weak undo made

theorem traced_synthesize (s : Settings) (solver : Solver σ)
    (providers : List (ConstraintProvider σ)) (directory : Path) (task : Task) (world : World σ) :
    Traced (synthesize s solver.recorded (providers.map ConstraintProvider.withRecord) directory task)
      (synthesize s solver providers directory task) world fun result after trace =>
        ∃ weak undo made, trace = weak.toList ++ undo.toList ++ made ∧
          SynthesisRun s solver providers directory task world result after weak undo made := by
  refine .bind_silent (by simp) ?_ fun _ written hwrite => ?_
  · exact fun e after hfails => ⟨none, none, [], rfl, .unwritten hfails⟩
  rw [returns_during] at hwrite
  refine .bind_get (fun _ => rfl) ?_
  refine .bind (traced_findHints s solver directory task ⟨written.clock, s.timeLimit⟩ written) ?_ ?_
  · rintro e after _ - ⟨weak, rfl, hhints⟩
    exact ⟨weak, none, [], by simp, .unhinted hwrite hhints⟩
  rintro found hinted _ - ⟨weak, rfl, hhints⟩
  cases found with
  | inl outcome => exact traced_pure ⟨weak, none, [], by simp, .settled hwrite hhints⟩
  | inr hints =>
    refine (traced_searchController s solver providers directory _ task _ hints hinted).imp ?_
    rintro result after _ ⟨undo, made, rfl, hsearch⟩
    exact ⟨weak, undo, made, by simp, .searched hwrite hhints hsearch⟩

/-- How a run goes: its ending, the call for a weak plan, if it is made, the call for undo pairs, if it
is made, and the calls for controllers. -/
inductive SolveRun (s : Settings) (solver : Solver σ) (providers : List (ConstraintProvider σ))
    (world : World σ) :
    Except Trouble SolveReport → World σ → Option Exchange → Option Exchange → List Exchange → Prop
  | unopened {e : Trouble} {after : World σ} (hfails : Fails (opening s) world e after) :
    SolveRun s solver providers world (.error e) after none none []
  | trivial {directory : Path} {task : Task} {after : World σ}
    (hopen : Returns (opening s) world (directory, task) after)
    (hgoal : task.goalHoldsInitially = true) :
    SolveRun s solver providers world
      (.ok (reportOn world.clock task { outcome := .trivial } after.clock)) after none none []
  | synthesized {directory : Path} {task : Task} {result : Except Trouble Findings}
    {opened after : World σ} {weak undo : Option Exchange} {made : List Exchange}
    (hopen : Returns (opening s) world (directory, task) opened)
    (hgoal : task.goalHoldsInitially = false)
    (hrun : SynthesisRun s solver providers directory task opened result after weak undo made) :
    SolveRun s solver providers world
      (result.map fun findings => reportOn world.clock task findings after.clock) after weak undo
      made

theorem traced_solve (s : Settings) (solver : Solver σ) (providers : List (ConstraintProvider σ))
    (world : World σ) :
    Traced (solve s solver.recorded (providers.map ConstraintProvider.withRecord))
      (solve s solver providers) world fun result after trace =>
        ∃ weak undo made, trace = weak.toList ++ undo.toList ++ made ∧
          SolveRun s solver providers world result after weak undo made := by
  rw [solve_eq, solve_eq]
  refine .bind_get (fun _ => rfl) ?_
  refine .bind_silent (withRecord_opening s) ?_ ?_
  · exact fun e after hfails => ⟨none, none, [], rfl, .unopened hfails⟩
  rintro ⟨directory, task⟩ opened hopen
  dsimp only
  cases hgoal : task.goalHoldsInitially with
  | true =>
    rw [if_pos rfl, if_pos rfl, pure_bind, pure_bind]
    exact .bind_get (fun _ => rfl) (traced_pure ⟨none, none, [], rfl, .trivial hopen hgoal⟩)
  | false =>
    rw [if_neg Bool.false_ne_true, if_neg Bool.false_ne_true]
    refine .bind (traced_synthesize s solver providers directory task opened) ?_ ?_
    · rintro e after _ - ⟨weak, undo, made, rfl, hrun⟩
      exact ⟨weak, undo, made, rfl, .synthesized hopen hgoal hrun⟩
    rintro findings after _ - ⟨weak, undo, made, rfl, hrun⟩
    refine .bind_get (fun _ => rfl) (traced_pure ⟨weak, undo, made, List.append_nil _, ?_⟩)
    exact .synthesized hopen hgoal hrun

end Synthesis

end StrongCyclic
