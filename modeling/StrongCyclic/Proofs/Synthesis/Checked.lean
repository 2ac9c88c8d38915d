import StrongCyclic.Proofs.Synthesis.Preparation
import StrongCyclic.Proofs.Verification.PlanningGoal

/-!
The check at the end of a run. It goes through files: the outputs of earlier runs are removed, each
attempt is written down, the largest attempt is read back, and so is the planning task. If the solver
and the providers of constraints only answer, this is the check in memory of the planning task and of
what the solver printed last, but for one thing. The controller program, which is copied under its own
name, must not have a name that is taken for that of an attempt.
-/

namespace StrongCyclic.Synthesis

open FileTree Job Place RunDirectory Search

variable {σ : Type} {directory : Place} {s : Settings} {solver : Solver σ}
  {providers : List (ConstraintProvider σ)} {world final : World σ}

/-- The text of the task file, which is read when the output directory has been created. -/
def IsTaskText (s : Settings) (tree : FileTree) (text : String) : Prop :=
  ∃ prepared, tree.createDirectories s.output.directory = .ok prepared ∧
    prepared.read s.taskFile = .ok text

/-! ### Before the first attempt -/

/-- The planning task is in the directory, and no attempt. -/
def IsReady (directory : Place) (text : String) (tree : FileTree) : Prop :=
  HasTask directory text tree ∧ Attempts directory (fun _ _ => False) tree

theorem stable_isReady (text : String) :
    Stable directory fun world : World σ => IsReady directory text world.files :=
  (stable_hasTask text).and stable_attempts

theorem onlyReplies_loadAll (paths : List Path) :
    @ConstraintProvider.OnlyReplies σ fun _ => ConstraintFile.loadAll paths :=
  fun _ world _ _ h => keeps_loadAll (K := fun w => w.files = world.files) paths h rfl

/-! ### From the search to the check -/

/-- The search has ended with a controller of size `n`, and the check is the one in memory of what
the solver printed last, unless that says that the time ran out. -/
def EndsWithCheck (s : Settings) (solver : Solver σ) (directory : Place) (text : String)
    (range : SizeRange) (n : Nat) (check : Option RunCheck) (final : World σ) : Prop :=
  ∃ plan k reply result, plan.args = s.solver.args ∧
    Found solver plan range directory (fun _ => False) range.min k n reply final ∧
    check = some result ∧
    (Text.contains timedOutMark reply = false →
      RunCheck.inMemory? (pathOf directory) text reply = some result)

theorem checkSolution_returns {size states : Nat} {output path : Path} {check : Option RunCheck}
    (hverify : s.output.verify = true)
    (h : Returns (checkSolution s path (.solved size states output)) world check final) :
    ∃ result, check = some result ∧ Returns (RunDirectory.check path) world result final := by
  rw [checkSolution, if_pos hverify] at h
  obtain ⟨result, after, hcheck, h⟩ := returns_bind.mp h
  obtain ⟨rfl, rfl⟩ := returns_pure.mp h
  exact ⟨result, rfl, hcheck⟩

section Steps

variable {text : String} {task : Task} {findings : Findings} {n states : Nat} {output : Path}
  (hsolver : solver.OnlyReplies) (hproviders : ∀ provider ∈ providers, provider.OnlyReplies)
  (hverify : s.output.verify = true)
  (haside : ∀ name, s.solver.controllerModel.fileName? = some name → IsAside name)
  (hplace : Proper directory) (htask : HasTask directory text world.files)

include hsolver hproviders hverify haside hplace htask

theorem searchController_returns {instanceFile : Path} {deadline : Deadline} {hints : Hints}
    (h : Returns (searchController s solver providers (pathOf directory) instanceFile task deadline
      hints) world findings final)
    (hsolved : findings.outcome = .solved n states output) :
    findings.backbone = hints.backbone ∧
      EndsWithCheck s solver directory text hints.sizes n findings.check final := by
  obtain ⟨count, cleaned, hremove, h⟩ := returns_bind.mp h
  have hcleaned : IsReady directory text cleaned.files :=
    removeOutputs_returns hplace htask (returns_asTrouble.mp hremove)
  obtain ⟨controllerModel, copied, hcopy, h⟩ := returns_bind.mp h
  have hcopied := keeps_copyProgram (stable_isReady text) hplace haside hcopy hcleaned
  obtain ⟨undo, forbidden, hundo, h⟩ := returns_bind.mp h
  have hforbidden := keeps_forbidUndo (stable_isReady text) hplace hasRunNames_isAside hsolver _ _
    hundo hcopied
  obtain ⟨constraints, ready, hconstraints, h⟩ := returns_bind.mp h
  have hall := List.forall_mem_cons.mpr ⟨onlyReplies_loadAll s.constraints.files, hproviders⟩
  obtain ⟨hready, hempty⟩ := keeps_writeConstraints (stable_isReady text) hasRunNames_isAside
    hall _ _ _ (returns_asTrouble.mp hconstraints) hforbidden
  obtain ⟨outcome, found, hsizes, h⟩ := returns_bind.mp h
  obtain ⟨check, checked, hcheck, h⟩ := returns_bind.mp h
  obtain ⟨rfl, rfl⟩ := returns_pure.mp h
  obtain rfl : outcome = .solved n states output := hsolved
  obtain ⟨result, rfl, hresult⟩ := checkSolution_returns hverify hcheck
  obtain ⟨htask', k, reply, hfound⟩ := sizesFrom_returns hsolver hplace rfl hready
    (hempty.imp fun _ _ h => h.elim) (returns_asTrouble.mp hsizes)
  have hkept := keeps_check Found.stable_found hasRunNames_isAside hplace hresult hfound
  exact ⟨rfl, _, k, reply, result, rfl, hkept, rfl, hfound.check_returns hplace htask' hresult⟩

theorem synthesize_returns
    (h : Returns (synthesize s solver providers (pathOf directory) task) world findings final)
    (hsolved : findings.outcome = .solved n states output) :
    EndsWithCheck s solver directory text (sizesFromBackbone s findings.backbone) n
      findings.check final := by
  obtain ⟨_, written, hwrite, h⟩ := returns_bind.mp h
  have hwritten := keeps_writeInstance (stable_hasTask text) hplace task _ (by decide) (by decide)
    (returns_during.mp hwrite) htask
  obtain ⟨seen, between, hget, h⟩ := returns_bind.mp h
  obtain ⟨rfl, rfl⟩ := returns_get.mp hget
  obtain ⟨result, hinted, hhints, h⟩ := returns_bind.mp h
  have hkept := keeps_findHints (stable_hasTask text) hplace hasRunNames_isAside hsolver (by decide)
    task _ hhints hwritten
  rcases findHints_returns hhints with ⟨outcome, rfl, hunsolved⟩ | ⟨hints, rfl, hsizes⟩
  · obtain ⟨rfl, rfl⟩ := returns_pure.mp h
    obtain rfl : outcome = .solved n states output := hsolved
    cases hunsolved
  · obtain ⟨hbackbone, hends⟩ :=
      searchController_returns hsolver hproviders hverify haside hplace hkept h hsolved
    rw [hsizes] at hends
    rw [hbackbone]
    exact hends

end Steps

/-- The check of a run that has found a controller is the check in memory of the planning task and
of what the solver printed last. -/
theorem solve_checks_lastReply {report : SolveReport} {n states : Nat} {output : Path}
    (hsolver : solver.OnlyReplies) (hproviders : ∀ provider ∈ providers, provider.OnlyReplies)
    (hworking : Proper world.files.workingDirectory) (hverify : s.output.verify = true)
    (haside : ∀ name, s.solver.controllerModel.fileName? = some name → IsAside name)
    (h : Returns (solve s solver providers) world report final)
    (hsolved : report.outcome = .solved n states output) :
    ∃ directory text plan k reply check, IsTaskText s world.files text ∧
      plan.args = s.solver.args ∧
      Found solver plan (sizesFromBackbone s report.backbone) directory (fun _ => False)
        (sizesFromBackbone s report.backbone).min k n reply final ∧
      report.check = some check ∧
      (Text.contains timedOutMark reply = false →
        RunCheck.inMemory? (pathOf directory) text reply = some check) := by
  obtain ⟨start, between, hstart, h⟩ := returns_bind.mp h
  obtain ⟨rfl, rfl⟩ := returns_get.mp hstart
  obtain ⟨path, prepared, hprepare, h⟩ := returns_bind.mp h
  obtain ⟨directory, hplace, rfl, hcreate, hworking'⟩ := prepare_returns hworking hprepare
  obtain ⟨task, between, hload, h⟩ := returns_bind.mp h
  obtain ⟨⟨text, hread, hparse⟩, rfl⟩ := loadTask_returns hload
  obtain ⟨_, copied, hcopy, h⟩ := returns_bind.mp h
  have htask := hasTask_of_copyInto hplace hworking' hread hcopy
  dsimp only at h
  split at h
  · obtain ⟨findings, after, htrivial, h⟩ := returns_bind.mp h
    obtain ⟨rfl, rfl⟩ := returns_pure.mp htrivial
    obtain ⟨seen, ending, -, h⟩ := returns_bind.mp h
    obtain ⟨rfl, rfl⟩ := returns_pure.mp h
    cases hsolved
  · obtain ⟨findings, after, hfindings, h⟩ := returns_bind.mp h
    obtain ⟨seen, ending, hget, h⟩ := returns_bind.mp h
    obtain ⟨rfl, rfl⟩ := returns_get.mp hget
    obtain ⟨rfl, rfl⟩ := returns_pure.mp h
    obtain ⟨plan, k, reply, check, hargs, hfound, hcheck, hsame⟩ :=
      synthesize_returns hsolver hproviders hverify haside hplace htask hfindings hsolved
    exact ⟨directory, text, plan, k, reply, check, ⟨_, hcreate, hread⟩, hargs, hfound, hcheck, hsame⟩

/-! ### The locked door -/

/-- What a solver may print for the locked door: a controller that knows nothing to do. -/
def idleReply : String :=
  "Answer: 1\nholds(0,0,0) holds(1,0,1)\nSATISFIABLE\n"

/-- The task of the locked door beside a program, and a solver that prints the idle controller. -/
def lockedDoorWorld (program text : String) : World Solver.Script where
  files :=
    { entries := [(["door"], .directory), (["door", program], .file text),
        (["door", "task.sas"], .file Verification.lockedDoorFile)]
      workingDirectory := ["door"] }
  solver := ⟨[.run (.finished idleReply)], []⟩
  clock := ⟨0⟩

/-- The settings to look for a controller of the locked door with the program. -/
def lockedDoorSettings (program : String) : Settings where
  taskFile := ⟨"task.sas"⟩
  solver := { controllerModel := ⟨program⟩ }
  output := { directory := ⟨"out"⟩ }

/-- The run for the locked door. -/
def lockedDoorRun (program text : String) : Except Trouble SolveReport × World Solver.Script :=
  (solve (lockedDoorSettings program) Solver.scripted []).run.run (lockedDoorWorld program text)

/-- The report on the run with a check. -/
def lockedDoorReport (check : RunCheck) : SolveReport where
  outcome := .solved 1 2 ⟨"/door/out/clingo_out_1.out"⟩
  statistics := ⟨1, 0, 0, 0, 1, 0, 1⟩
  backbone := none
  check := some check
  elapsed := ⟨0⟩

/-- The idle controller is not strong cyclic. -/
def idleCheck : RunCheck :=
  ⟨⟨"/door/out"⟩, false, false, 2, 1⟩

theorem onlyReplies_scripted : Solver.scripted.OnlyReplies := by
  intro call budget world run after h
  obtain ⟨seen, between, hget, h⟩ := returns_bind.mp h
  obtain ⟨rfl, rfl⟩ := returns_get.mp hget
  obtain ⟨_, answered, hset, h⟩ := returns_bind.mp h
  obtain rfl := returns_set.mp hset
  obtain ⟨-, rfl⟩ := returns_ofExcept.mp h
  rfl

theorem returns_lockedDoorRun {program text : String} {report : SolveReport}
    (h : (lockedDoorRun program text).1 = .ok report) :
    Returns (solve (lockedDoorSettings program) Solver.scripted [])
      (lockedDoorWorld program text) report (lockedDoorRun program text).2 := by
  rw [lockedDoorRun] at h ⊢
  exact returns_of_run h

theorem lockedDoorRun_program :
    (lockedDoorRun "controller.lp" "").1 = .ok (lockedDoorReport idleCheck) := by
  decide +kernel

theorem inMemory?_idleReply :
    RunCheck.inMemory? ⟨"/door/out"⟩ Verification.lockedDoorFile idleReply = some idleCheck := by
  decide +kernel

theorem solve_checks_lastReply_lockedDoor :
    (lockedDoorRun "controller.lp" "").1 = .ok (lockedDoorReport idleCheck) ∧
      RunCheck.inMemory? ⟨"/door/out"⟩ Verification.lockedDoorFile idleReply = some idleCheck ∧
      ∃ directory text plan k reply check,
        IsTaskText (lockedDoorSettings "controller.lp")
          (lockedDoorWorld "controller.lp" "").files text ∧
        plan.args = (lockedDoorSettings "controller.lp").solver.args ∧
        Found Solver.scripted plan (sizesFromBackbone (lockedDoorSettings "controller.lp") none)
          directory (fun _ => False)
          (sizesFromBackbone (lockedDoorSettings "controller.lp") none).min k 1 reply
          (lockedDoorRun "controller.lp" "").2 ∧
        (lockedDoorReport idleCheck).check = some check ∧
        (Text.contains timedOutMark reply = false →
          RunCheck.inMemory? (pathOf directory) text reply = some check) := by
  have hname : (Path.mk "controller.lp").fileName? = some "controller.lp" := by decide
  have haside : ∀ name, (lockedDoorSettings "controller.lp").solver.controllerModel.fileName? =
      some name → IsAside name := by
    intro name h
    obtain rfl : "controller.lp" = name := Option.some.inj (hname.symm.trans h)
    decide
  exact ⟨lockedDoorRun_program, inMemory?_idleReply,
    solve_checks_lastReply onlyReplies_scripted (by simp) (by decide) rfl haside
      (returns_lockedDoorRun lockedDoorRun_program) rfl⟩

/-! ### A program that is taken for an attempt -/

/-- A name under which a run itself may write a file. -/
def IsRunFile (name : String) : Prop :=
  name ∈ [FileNames.task, FileNames.controllerInstance, FileNames.weakInstance,
      FileNames.weakPlanOutput, FileNames.backbone, FileNames.unsolvable, FileNames.undoOutput,
      FileNames.undoConstraints ++ ".lp", FileNames.controllerText, FileNames.controllerGraph,
      FileNames.verification] ∨
    (∃ size, name = FileNames.attemptOutput size) ∨
    ∃ (file : ConstraintFile) (index : Nat), name = (file.numbered index).name ++ ".lp"

theorem not_isRunFile_plus : ¬ IsRunFile "clingo_out_+9.out" := by
  rintro (h | ⟨size, h⟩ | ⟨file, index, h⟩)
  · exact absurd h (by decide)
  · have hsize : FileNames.attemptSize? (FileNames.attemptOutput size) = some 9 := h ▸ by decide
    obtain rfl := FileNames.eq_of_attemptSize?_attemptOutput hsize
    exact absurd h (by decide)
  · exact FileNames.append_lp_ne (by decide) h.symm

theorem timedOut_of_inMemory? {path : Path} {text output : String} {check : RunCheck}
    (h : RunCheck.inMemory? path text output = some check) : check.timedOut = false := by
  obtain ⟨task, out, answer, c, v, -, -, -, -, -, rfl⟩ := RunCheck.inMemory?_eq_some_iff.mp h
  rfl

/-- The call for the locked door, with a program that is called like an attempt. -/
def plusCall : SolverCall where
  inputs := [⟨"/door/out/clingo_out_+9.out"⟩, ⟨"/door/out/instance.lp"⟩]
  args := ["-c", "numStates=1"]
  directory := ⟨"/door/out"⟩

theorem lockedDoorRun_plus :
    ((lockedDoorRun "clingo_out_+9.out" timedOutMark).1,
      (lockedDoorRun "clingo_out_+9.out" timedOutMark).2.solver,
      (lockedDoorRun "clingo_out_+9.out" timedOutMark).2.clock) =
    (.ok (lockedDoorReport (.ofTimeOut ⟨"/door/out"⟩)), ⟨[], [⟨plusCall, none⟩]⟩, ⟨0⟩) := by
  decide +kernel

/-- A controller program with a plus sign before its number is no file of the run, but is taken for
the largest attempt, and the check goes by it. -/
theorem not_forall_solve_checks_lastReply :
    ¬ ∀ (σ : Type) (s : Settings) (solver : Solver σ) (world final : World σ)
        (report : SolveReport) (n states : Nat) (output : Path) (text reply : String)
        (call : SolverCall), solver.OnlyReplies → Proper world.files.workingDirectory →
        s.output.verify = true →
        (∀ name, s.solver.controllerModel.fileName? = some name → ¬ IsRunFile name) →
        Returns (solve s solver []) world report final →
        report.outcome = .solved n states output → IsTaskText s world.files text →
        solver.LastReply call reply final →
        call.args = "-c" :: ("numStates=" ++ toString n) :: s.solver.args →
        Text.contains timedOutMark reply = false →
        ∃ directory check, report.check = some check ∧
          RunCheck.inMemory? directory text reply = some check := by
  intro hall
  obtain ⟨hresult, hworld⟩ := Prod.mk.inj lockedDoorRun_plus
  obtain ⟨hsolver, hclock⟩ := Prod.mk.inj hworld
  have hname : (Path.mk "clingo_out_+9.out").fileName? = some "clingo_out_+9.out" := by decide
  have hforeign : ∀ name,
      (lockedDoorSettings "clingo_out_+9.out").solver.controllerModel.fileName? = some name →
        ¬ IsRunFile name := by
    intro name h
    obtain rfl : "clingo_out_+9.out" = name := Option.some.inj (hname.symm.trans h)
    exact not_isRunFile_plus
  have htask : IsTaskText (lockedDoorSettings "clingo_out_+9.out")
      (lockedDoorWorld "clingo_out_+9.out" timedOutMark).files Verification.lockedDoorFile :=
    Fallible.bind_eq_ok.mp (by decide +kernel)
  have hreply : Solver.scripted.LastReply plusCall idleReply
      (lockedDoorRun "clingo_out_+9.out" timedOutMark).2 :=
    ⟨lockedDoorWorld "clingo_out_+9.out" timedOutMark, none, _, rfl, hsolver, hclock⟩
  obtain ⟨path, check, hcheck, hmemory⟩ := hall Solver.Script _ Solver.scripted _ _ _ 1 2 _ _ _
    plusCall onlyReplies_scripted (by decide) rfl hforeign (returns_lockedDoorRun hresult) rfl htask
    hreply rfl (by decide)
  cases hcheck
  exact absurd (timedOut_of_inMemory? hmemory) (by decide)

end StrongCyclic.Synthesis
