import StrongCyclic.Proofs.Synthesis.Preparation

/-!
The order of the calls of a run, as the settings have it. A run that ends with a report has asked for
a weak plan exactly if weak plans are enabled and the goal does not hold initially, and for undo pairs
exactly if a program for them is set and the weak plan has not ended the run. Every call for a
controller has the inputs and arguments that the settings name, at the sizes from the length of the
backbone on. A call that fails is the last one, and its failure is the cause of the error.
-/

namespace StrongCyclic.Synthesis

open Job Search

variable {σ : Type} {s : Settings} {solver : Solver σ} {providers : List (ConstraintProvider σ)}
  {directory instanceFile : Path} {task : Task} {deadline : Deadline} {hints : Hints}
  {world after : World σ} {weak undo : Option Exchange} {made : List Exchange}

/-- The run has come to the search for a controller. -/
def CameToSearch (s : Settings) (report : SolveReport) : Prop :=
  report.outcome ≠ .trivial ∧ report.outcome ≠ .unsolvable ∧
    (s.backbone.enabled = true → report.backbone ≠ none)

/-- The calls of a run that ends with a report. -/
structure Follows (s : Settings) (report : SolveReport) (weak undo : Option Exchange)
    (made : List Exchange) : Prop where
  weak_iff : weak ≠ none ↔ s.backbone.enabled = true ∧ report.outcome ≠ .trivial
  undo_iff : undo ≠ none ↔ s.constraints.undoProgram ≠ none ∧ CameToSearch s report
  made : made ≠ [] → CameToSearch s report

/-- The calls for controllers: their inputs and arguments, and the sizes from the length of the
backbone on. -/
structure SizeCalls (s : Settings) (providers : List (ConstraintProvider σ)) (directory : Path)
    (task : Task) (backbone : Option Nat) (made : List Exchange) : Prop where
  backbone_iff : backbone ≠ none ↔ s.backbone.enabled = true
  calls : ∃ name static provided, s.solver.controllerModel.fileName? = some name ∧
    Loaded s static ∧ Provided providers task provided ∧
    made.map Exchange.call = (List.range made.length).map fun k =>
      { inputs := directory.join name :: directory.join FileNames.controllerInstance ::
          (backbonePaths s directory ++ undoPaths s directory ++
            numberedPaths directory 1 (static ++ provided.flatten))
        args := "-c" ::
          ("numStates=" ++ toString ((sizesFromBackbone s backbone).sizeFrom
            (sizesFromBackbone s backbone).min k)) :: s.solver.args
        directory := directory }

/-! ### Calls that fail -/

theorem HintsRun.failsLast {result : Except Trouble (SolveOutcome ⊕ Hints)}
    (h : HintsRun s solver directory task deadline world result after weak) :
    FailsLast Trouble.failure? result weak.toList := by
  cases h with
  | disabled => exact failsLast_nil
  | unprepared => exact failsLast_nil
  | failed => exact failsLast_failed fun _ hfailed => congrArg some (Except.error.inj hfailed)
  | broken => exact failsLast_replied rfl
  | settled => exact failsLast_replied rfl

theorem UndoRun.failsLast {result : Except Trouble (List Path)}
    (h : UndoRun s solver directory instanceFile deadline world result after undo) :
    FailsLast Trouble.failure? result undo.toList := by
  cases h with
  | unset => exact failsLast_nil
  | unprepared => exact failsLast_nil
  | failed => exact failsLast_failed fun _ hfailed => congrArg some (Except.error.inj hfailed)
  | broken => exact failsLast_replied rfl
  | settled => exact failsLast_replied rfl

theorem PlanRun.failsLast {result : Except Trouble SearchPlan}
    (h : PlanRun s solver providers directory instanceFile task deadline hints world result after
      undo) : FailsLast Trouble.failure? result undo.toList := by
  cases h with
  | uncleaned => exact failsLast_nil
  | stopped _ hundo => exact hundo.failsLast.of_error rfl
  | ungathered _ hundo => exact hundo.failsLast.of_ok
  | planned _ hundo => exact hundo.failsLast.of_ok

theorem ControllerRun.failsLast {result : Except Trouble Findings}
    (h : ControllerRun s solver providers directory instanceFile task deadline hints world result
      after undo made) : FailsLast Trouble.failure? result (undo.toList ++ made) := by
  cases h with
  | unplanned hplan =>
    rw [List.append_nil]
    exact hplan.failsLast.of_error rfl
  | failed hplan hsizes => exact hplan.failsLast.append (hsizes.failsLast.of_error rfl)
  | unchecked hplan hsizes => exact hplan.failsLast.append hsizes.failsLast.of_ok
  | done hplan hsizes => exact hplan.failsLast.append hsizes.failsLast.of_ok

theorem SynthesisRun.failsLast {result : Except Trouble Findings}
    (h : SynthesisRun s solver providers directory task world result after weak undo made) :
    FailsLast Trouble.failure? result (weak.toList ++ undo.toList ++ made) := by
  cases h with
  | unwritten => exact failsLast_nil
  | unhinted _ hhints =>
    simp only [Option.toList_none, List.append_nil]
    exact hhints.failsLast.of_error rfl
  | settled _ hhints =>
    simp only [Option.toList_none, List.append_nil]
    exact hhints.failsLast.of_ok
  | searched _ hhints hsearch =>
    rw [List.append_assoc]
    exact hhints.failsLast.append hsearch.failsLast

theorem SolveRun.failsLast {result : Except Trouble SolveReport}
    (h : SolveRun s solver providers world result after weak undo made) :
    FailsLast Trouble.failure? result (weak.toList ++ undo.toList ++ made) := by
  cases h with
  | unopened => exact failsLast_nil
  | trivial => exact failsLast_nil
  | synthesized _ _ hrun => exact hrun.failsLast.map _

/-! ### Calls that the settings ask for -/

theorem PlanRun.planned_iff {plan : SearchPlan}
    (h : PlanRun s solver providers directory instanceFile task deadline hints world (.ok plan)
      after undo) :
    (undo ≠ none ↔ s.constraints.undoProgram ≠ none) ∧
      IsPlan s providers directory instanceFile task hints (undoPaths s directory) plan := by
  cases h with
  | planned _ hundo _ hplan =>
    obtain ⟨hiff, rfl⟩ := hundo.forbidden
    exact ⟨hiff, hplan⟩

theorem HintsRun.not_came {outcome : SolveOutcome}
    (h : HintsRun s solver directory task deadline world (.ok (.inl outcome)) after weak)
    (start now : Duration) : ¬ CameToSearch s (reportOn start task { outcome } now) :=
  fun hcame => hcame.2.2 h.ended.1 rfl

theorem ControllerRun.came {findings : Findings} {searched : World σ}
    (hhints : HintsRun s solver directory task deadline world (.ok (.inr hints)) searched weak)
    (h : ControllerRun s solver providers directory instanceFile task deadline hints searched
      (.ok findings) after undo made) (start now : Duration) :
    CameToSearch s (reportOn start task findings now) := by
  obtain ⟨-, hbackbone, -, -⟩ := hhints.hinted
  cases h with
  | done hplan hsizes => exact ⟨hsizes.outcome_ne.1, hsizes.outcome_ne.2, hbackbone.mpr⟩

theorem SynthesisRun.follows {findings : Findings}
    (h : SynthesisRun s solver providers directory task world (.ok findings) after weak undo made)
    (start now : Duration) : Follows s (reportOn start task findings now) weak undo made := by
  cases h with
  | @settled outcome _ _ _ _ hhints =>
    obtain ⟨henabled, hweak, hended⟩ := hhints.ended
    have hcame := hhints.not_came start now
    refine ⟨iff_of_true hweak ⟨henabled, ?_⟩, by simp [hcame], by simp⟩
    rcases hended with rfl | rfl <;> simp [reportOn]
  | @searched hints _ _ _ _ _ _ _ _ hhints hsearch =>
    obtain ⟨hweak, -, -, -⟩ := hhints.hinted
    have hcame := hsearch.came hhints start now
    cases hsearch with
    | done hplan =>
      obtain ⟨hundo, -⟩ := hplan.planned_iff
      exact ⟨hweak.trans ⟨fun h => ⟨h, hcame.1⟩, And.left⟩,
        hundo.trans ⟨fun h => ⟨h, hcame⟩, And.left⟩, fun _ => hcame⟩

theorem SolveRun.follows {report : SolveReport}
    (h : SolveRun s solver providers world (.ok report) after weak undo made) :
    Follows s report weak undo made := by
  generalize hresult : (Except.ok report : Except Trouble SolveReport) = result at h
  cases h with
  | unopened => cases hresult
  | trivial =>
    obtain rfl := Except.ok.inj hresult
    exact ⟨by simp [reportOn], by simp [CameToSearch, reportOn], by simp⟩
  | @synthesized _ _ found _ _ _ _ _ _ _ hrun =>
    obtain ⟨findings, rfl, rfl⟩ := Fallible.map_eq_ok.mp hresult.symm
    exact hrun.follows _ _

/-! ### Calls for controllers -/

theorem ControllerRun.exists_plan {result : Except Trouble Findings}
    (h : ControllerRun s solver providers directory instanceFile task deadline hints world result
      after undo made) (hmade : made ≠ []) :
    ∃ plan, IsPlan s providers directory instanceFile task hints (undoPaths s directory) plan ∧
      made.map Exchange.call = (List.range made.length).map fun k =>
        plan.call (hints.sizes.sizeFrom hints.sizes.min k) := by
  cases h with
  | unplanned => exact absurd rfl hmade
  | failed hplan hsizes => exact ⟨_, hplan.planned_iff.2, hsizes.map_call⟩
  | unchecked hplan hsizes => exact ⟨_, hplan.planned_iff.2, hsizes.map_call⟩
  | done hplan hsizes => exact ⟨_, hplan.planned_iff.2, hsizes.map_call⟩

theorem SynthesisRun.exists_sizeCalls {result : Except Trouble Findings}
    (h : SynthesisRun s solver providers directory task world result after weak undo made)
    (hmade : made ≠ []) :
    ∃ backbone, SizeCalls s providers directory task backbone made ∧
      ∀ findings, result = .ok findings → findings.backbone = backbone := by
  cases h with
  | unwritten => exact absurd rfl hmade
  | unhinted => exact absurd rfl hmade
  | settled => exact absurd rfl hmade
  | @searched hints _ _ _ _ _ _ _ _ hhints hsearch =>
    obtain ⟨-, hbackbone, hpaths, hsizes⟩ := hhints.hinted
    obtain ⟨plan, hplan, hcalls⟩ := hsearch.exists_plan hmade
    obtain ⟨name, hname, hmodel⟩ := hplan.controllerModel
    obtain ⟨static, provided, hstatic, hprovided, hconstraints⟩ := hplan.constraints
    refine ⟨hints.backbone, ⟨hbackbone, name, static, provided, hname, hstatic, hprovided, ?_⟩, ?_⟩
    · simpa only [SearchPlan.call, hmodel, hplan.instanceFile, hconstraints, hpaths, hplan.args,
        hplan.directory, hsizes] using hcalls
    · rintro findings rfl
      cases hsearch with
      | done => rfl

/-- The calls of a run: which are made, in which order, with which inputs, and what becomes of a run
in which one of them or a step between them fails. -/
theorem solve_callDiscipline (s : Settings) (solver : Solver σ)
    (providers : List (ConstraintProvider σ)) (world : World σ) :
    Traced (solve s solver.recorded (providers.map ConstraintProvider.withRecord))
      (solve s solver providers) world fun result after trace =>
        FailsLast Trouble.failure? result trace ∧
          ∃ weak undo made, trace = weak.toList ++ undo.toList ++ made ∧
            SolveRun s solver providers world result after weak undo made ∧
            (∀ report, result = .ok report → Follows s report weak undo made) ∧
            (made ≠ [] → ∃ directory task opened backbone,
              Returns (opening s) world (directory, task) opened ∧
              task.goalHoldsInitially = false ∧
              SizeCalls s providers directory task backbone made ∧
              ∀ report, result = .ok report → report.backbone = backbone) := by
  refine (traced_solve s solver providers world).imp ?_
  rintro result after _ ⟨weak, undo, made, rfl, hrun⟩
  refine ⟨hrun.failsLast, weak, undo, made, rfl, hrun, ?_, fun hmade => ?_⟩
  · rintro report rfl
    exact hrun.follows
  cases hrun with
  | unopened => exact absurd rfl hmade
  | trivial => exact absurd rfl hmade
  | @synthesized directory task _ opened _ _ _ _ hopen hgoal hrun =>
    obtain ⟨backbone, hcalls, hreport⟩ := hrun.exists_sizeCalls hmade
    refine ⟨directory, task, opened, backbone, hopen, hgoal, hcalls, fun report heq => ?_⟩
    obtain ⟨findings, rfl, rfl⟩ := Fallible.map_eq_ok.mp heq
    exact hreport findings rfl

end StrongCyclic.Synthesis
