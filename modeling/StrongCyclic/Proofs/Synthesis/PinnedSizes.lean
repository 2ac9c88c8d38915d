import StrongCyclic.Proofs.Guidance.BackbonePins
import StrongCyclic.Proofs.Search.WordSizes
import StrongCyclic.Proofs.Synthesis.Inputs

/-!
The search behind a backbone. Its constraints pin down as many states as the plan has steps, and the
least size is raised to this number, so that every size that is tried has room for them. The constraints
are written before the search, are the first of the further programs at each of its calls, and are there
unchanged if nothing else writes into the directory.
-/

namespace StrongCyclic.Synthesis

open FileTree Job Place Search

variable {σ : Type} {s : Settings} {solver : Solver σ} {providers : List (ConstraintProvider σ)}
  {world planned seen after : World σ} {path : Path} {task : Task} {hints : Hints}
  {deadline : Deadline} {range : SizeRange} {plan : SearchPlan} {weak : Exchange}
  {undo : Option Exchange} {made : List Exchange} {answer : Answer} {b : Backbone} {n : Nat}

/-- The reply has an answer that gives the plan. -/
def GivesPlan (x : Exchange) (answer : Answer) (b : Backbone) : Prop :=
  ∃ text out, x.reply = .ok (.finished text) ∧ readOutput text = .ok out ∧
    out.isSatisfiable = true ∧ out.lastAnswer? = some answer ∧
    Backbone.ofAnswer answer = .ok b ∧ b.steps ≠ []

theorem GivesPlan.ofAnswer_eq (h : GivesPlan weak answer b) :
    Backbone.ofAnswer answer = .ok b ∧ b.steps ≠ [] := by
  obtain ⟨text, out, -, -, -, -, hsteps⟩ := h
  exact hsteps

/-- The constraints of the backbone have been written after the call. -/
def WritesBackbone (s : Settings) (solver : Solver σ) (directory : Path) (weak : Exchange)
    (b : Backbone) : Prop :=
  ∃ task deadline before hints after,
    HintsRun s solver directory task deadline before (.ok (.inr hints)) after (some weak) ∧
      after.files.read (directory.join FileNames.backbone) =
        .ok (b.constraints s.backbone.style)

/-! ### Before the search -/

theorem useWeakReply_reads {text : String} {out : SolverOutput}
    (hread : readOutput text = .ok out) (hplan : Backbone.ofOutput out = .ok b)
    (hne : b.steps ≠ []) (hsize : s.backbone.sizeOnly = false)
    (h : Returns (useWeakReply s path (.finished text)) world (.inr hints) after) :
    after.files.read (path.join FileNames.backbone) = .ok (b.constraints s.backbone.style) := by
  obtain ⟨estimate, estimated, hestimate, h⟩ := returns_bind.mp h
  obtain ⟨text', heq, -⟩ | ⟨text', out', b', heq, hread', hplan', rfl⟩ :=
    readEstimate_returns (returns_during.mp hestimate)
  · cases heq
  cases heq
  obtain rfl := Except.ok.inj (hread.symm.trans hread')
  obtain rfl := Except.ok.inj (hplan.symm.trans hplan')
  rw [BackboneEstimate.ofBackbone, if_neg hne, useEstimate, hsize] at h
  obtain ⟨_, written, hconstraints, h⟩ := returns_bind.mp h
  obtain ⟨-, rfl⟩ := returns_pure.mp h
  obtain ⟨files, hwrite, rfl⟩ := returns_change.mp (returns_mapError.mp hconstraints)
  exact read_of_write hwrite

/-- Hints that are found come from the plan that the call has given. -/
theorem HintsRun.exists_plan {weak : Option Exchange} (henabled : s.backbone.enabled = true)
    (h : HintsRun s solver path task deadline world (.ok (.inr hints)) after weak) :
    ∃ x answer b, weak = some x ∧ GivesPlan x answer b ∧ hints.backbone = some b.length ∧
      (s.backbone.sizeOnly = false →
        after.files.read (path.join FileNames.backbone) = .ok (b.constraints s.backbone.style)) := by
  cases h with
  | disabled hdisabled => simp [hdisabled] at henabled
  | settled _ _ _ huse hfound =>
    cases hfound with
    | found hread hplan hne =>
      obtain ⟨answer, hanswer, hsat, hsteps⟩ := Backbone.ofOutput_eq_ok hplan hne
      exact ⟨_, answer, _, rfl, ⟨_, _, rfl, hread, hsat, hanswer, hsteps, hne⟩, rfl,
        fun hsize => useWeakReply_reads hread hplan hne hsize huse⟩

/-- What a run with a backbone has come to when the search begins. -/
structure Raises (s : Settings) (solver : Solver σ) (directory : Path) (plan : SearchPlan)
    (range : SizeRange) (weak : Exchange) (answer : Answer) (b : Backbone) : Prop where
  gives : GivesPlan weak answer b
  range_eq : range = sizesFromBackbone s (some b.length)
  args : plan.args = s.solver.args
  first : ∃ more, plan.constraints = directory.join FileNames.backbone :: more
  writes : WritesBackbone s solver directory weak b

theorem Plans.raises {weak : Option Exchange} (henabled : s.backbone.enabled = true)
    (hsize : s.backbone.sizeOnly = false)
    (h : Plans s solver providers world weak undo path plan range deadline planned) :
    ∃ x answer b, weak = some x ∧ Raises s solver path plan range x answer b := by
  cases h with
  | planned _ _ _ hhints =>
    obtain ⟨x, answer, b, rfl, hgives, hbackbone, hreads⟩ := hhints.exists_plan henabled
    obtain ⟨-, -, hpaths, hsizes⟩ := hhints.hinted
    refine ⟨x, answer, b, rfl, hgives, hbackbone ▸ hsizes, rfl, ?_, _, _, _, _, _, hhints,
      hreads hsize⟩
    simp [hpaths, backbonePaths, henabled, hsize]

/-! ### During the search -/

/-- The solver and the providers only reply, and the controller program is not called like a file of
the run. -/
structure Undisturbed (s : Settings) (solver : Solver σ) (providers : List (ConstraintProvider σ))
    (world : World σ) : Prop where
  solver_only : solver.OnlyReplies
  providers_only : ∀ provider ∈ providers, provider.OnlyReplies
  names : ∀ provider ∈ providers, provider.GivesNames
  working : Proper world.files.workingDirectory
  program : ∀ name, s.solver.controllerModel.fileName? = some name → ¬ IsRunFile name

theorem Plans.reads_backbone (hquiet : Undisturbed s solver providers world)
    (hsize : s.backbone.sizeOnly = false) (hgives : GivesPlan weak answer b)
    (hplans : Plans s solver providers world (some weak) undo path plan range deadline planned)
    (hreaches : Reaches solver plan range deadline range.min planned made n seen) :
    seen.files.read (path.join FileNames.backbone) = .ok (b.constraints s.backbone.style) := by
  obtain ⟨directory, prepared, program, sources, hplace, rfl, hprogram, hentry, hweak, -, -, rfl,
    hplain, -, hfurnished⟩ :=
    hplans.furnishes hquiet.solver_only hquiet.providers_only hquiet.names hquiet.working hquiet.program
  obtain ⟨text, out, hreply, hread, hsat, hanswer, hsteps, -⟩ := hgives
  have hplan : Backbone.ofOutput out = .ok b := by
    simp [Backbone.ofOutput, hanswer, hsat, hsteps, Except.mapError]
  have hmeant : Meant s sources made .backbone (b.constraints s.backbone.style) :=
    .backbone hsize hweak hreply hread hplan
  have hseen := Reaches.furnished hplace hprogram (fun a text h => h.isEntryName hentry hplain)
    hquiet.solver_only rfl rfl hreaches (hfurnished made)
  exact hseen.reads .backbone _ hmeant hmeant.phase_lt

/-- How the size that is tried after `k` others goes with the backbone. -/
structure HasRoom (s : Settings) (b : Backbone) (k n : Nat) : Prop where
  /-- The sizes go up from the length of the backbone, or from the least size if that is more. -/
  size_eq : n = max s.solver.sizes.min b.length + k * Nat.max s.solver.sizes.step 1
  length_le : b.length ≤ n
  /-- The size is beyond every state that is pinned down. -/
  below : ∀ state, some state ∈ b.path → state < n

theorem hasRoom_sizeFrom (s : Settings) (b : Backbone) (k : Nat) :
    HasRoom s b k ((sizesFromBackbone s (some b.length)).sizeFrom
      (sizesFromBackbone s (some b.length)).min k) := by
  have hle : b.length ≤ max s.solver.sizes.min b.length + k * Nat.max s.solver.sizes.step 1 :=
    Nat.le_trans (Nat.le_max_right _ _) (Nat.le_add_right _ _)
  exact ⟨rfl, hle, fun state hstate => Nat.lt_of_lt_of_le (Backbone.mem_path.mp hstate) hle⟩

/-- The call for the size `n`, after the calls `made` of the search, is bound by the plan that the first
call of the run has given: the constraints that are passed pin the plan down as one simple path, and the
size goes with them. -/
structure Bound (s : Settings) (solver : Solver σ) (providers : List (ConstraintProvider σ))
    (world : World σ) (weak : Exchange) (undo : Option Exchange) (made : List Exchange)
    (x : Exchange) (n : Nat) (answer : Answer) (b : Backbone) : Prop where
  gives : GivesPlan weak answer b
  orders : ∃ found, (answer.atomsOf "policy" 3).mapM Backbone.stepOf = .ok found ∧
    b.Orders (found.filterMap id)
  pins : b.PinsPath
  room : HasRoom s b made.length n
  passes : ∃ directory seen, x.call.inputs[2]? = some (directory.join FileNames.backbone) ∧
    WritesBackbone s solver directory weak b ∧
    ComesTo s solver providers world (some weak) undo made seen x ∧
    (Undisturbed s solver providers world →
      seen.files.read (directory.join FileNames.backbone) = .ok b.strictConstraints)

theorem Searches.bound {α : Type} {result : Except Trouble α} {trace earlier later : List Exchange}
    {x : Exchange} (henabled : s.backbone.enabled = true) (hstyle : s.backbone.style = .strict)
    (hsize : s.backbone.sizeOnly = false)
    (h : Searches s solver providers world result after trace) (htrace : trace = earlier ++ x :: later)
    (hargs : x.call.args = sizeArgs s.solver.args n) :
    ∃ weak undo made answer b, earlier = weak :: undo.toList ++ made ∧
      Bound s solver providers world weak undo made x n answer b := by
  have hnot {before : List Exchange} (hbefore : ∀ y ∈ before, y.call.args = ["--stats"]) :
      x ∉ before := fun hx => sizeArgs_ne_stats _ _ (hargs.symm.trans (hbefore x hx))
  cases h with
  | early hbefore => exact absurd (by simp [htrace]) (hnot hbefore)
  | @searched _ _ directory _ _ _ _ _ undo _ hbefore hplans hsizes hend =>
    obtain ⟨made, rfl, rfl⟩ := exists_of_append_eq (hnot hbefore) htrace
    obtain ⟨weak, answer, b, rfl, hgives, rfl, hplanArgs, ⟨more, hfirst⟩, hwrites⟩ :=
      hplans.raises henabled hsize
    obtain ⟨m, seen, hreaches, hcall⟩ := hsizes.reaches rfl
    obtain ⟨hsteps, hne⟩ := hgives.ofAnswer_eq
    refine ⟨weak, undo, made, answer, b, by simp, hgives, Backbone.orders_of_ofAnswer hsteps,
      Backbone.pinsPath hne, ?_, directory, seen, ?_, hwrites, ⟨_, _, _, _, _, m, hplans, hreaches,
      hcall⟩, fun hquiet => ?_⟩
    · have hx : (made ++ x :: later)[made.length]? = some x := by simp
      rw [(hsizes.isExchange hx).2.1, args_call, hplanArgs] at hargs
      exact sizeArgs_inj.mp hargs ▸ hasRoom_sizeFrom s b made.length
    · rw [hcall.call, SearchPlan.call, hfirst]
      rfl
    · rw [hplans.reads_backbone hquiet hsize hgives hreaches, hstyle]
      rfl

/-- The run that ends at the size `n` has tried it behind the plan of its first call. -/
def EndsWithRoom (s : Settings) (trace : List Exchange) (report : SolveReport) (n : Nat) : Prop :=
  ∃ weak rest answer b k, trace = weak :: rest ∧ GivesPlan weak answer b ∧
    report.backbone = some b.length ∧ HasRoom s b k n

theorem SolveRun.endsWithRoom {weak : Option Exchange} {report : SolveReport}
    (henabled : s.backbone.enabled = true)
    (h : SolveRun s solver providers world (.ok report) after weak undo made)
    (hbackbone : report.backbone ≠ none) (hn : report.outcome.IsAt n) :
    EndsWithRoom s (weak.toList ++ undo.toList ++ made) report n := by
  generalize hresult : (Except.ok report : Except Trouble SolveReport) = result at h
  cases h with
  | unopened => cases hresult
  | trivial =>
    obtain rfl := Except.ok.inj hresult
    exact absurd rfl hbackbone
  | synthesized _ _ hrun =>
    obtain ⟨findings, rfl, rfl⟩ := Fallible.map_eq_ok.mp hresult.symm
    cases hrun with
    | settled => exact absurd rfl hbackbone
    | searched _ hhints hsearch =>
      obtain ⟨x, answer, b, rfl, hgives, hlength, -⟩ := hhints.exists_plan henabled
      have hsizes := hhints.hinted.2.2.2
      rw [hlength] at hsizes
      cases hsearch with
      | done _ hrun =>
        obtain ⟨k, rfl⟩ := hrun.exists_sizeFrom hn
        rw [hsizes]
        exact ⟨x, undo.toList ++ made, answer, b, k, rfl, hgives, hlength, hasRoom_sizeFrom s b k⟩

/-- Every call for a controller is bound by the backbone, if there is one and it is strict, and so is
the size at which the run ends. -/
theorem solve_bound (s : Settings) (solver : Solver σ) (providers : List (ConstraintProvider σ))
    (world : World σ) (henabled : s.backbone.enabled = true)
    (hstyle : s.backbone.style = .strict) (hsize : s.backbone.sizeOnly = false) :
    Traced (solve s solver.recorded (providers.map ConstraintProvider.withRecord))
      (solve s solver providers) world fun result _ trace =>
        (∀ earlier x later n, trace = earlier ++ x :: later →
          x.call.args = sizeArgs s.solver.args n →
          ∃ weak undo made answer b, earlier = weak :: undo.toList ++ made ∧
            Bound s solver providers world weak undo made x n answer b) ∧
        ∀ report n, result = .ok report → report.backbone ≠ none → report.outcome.IsAt n →
          EndsWithRoom s trace report n := by
  refine ((traced_solve_plans s solver providers world).and
    (traced_solve s solver providers world)).imp ?_
  rintro result after trace ⟨hsearches, weak, undo, made, htrace, hrun⟩
  refine ⟨fun earlier x later n hsplit hargs => ?_, ?_⟩
  · exact hsearches.bound henabled hstyle hsize hsplit hargs
  · rintro report n rfl hbackbone hn
    exact htrace ▸ hrun.endsWithRoom henabled hbackbone hn

/-! ### A plan of one step -/

/-- The settings to look for a controller of the locked door behind a backbone. -/
def plannedDoorSettings : Settings where
  taskFile := ⟨"task.sas"⟩
  solver := { controllerModel := ⟨"controller.lp"⟩ }
  backbone := { enabled := true, weakPlanProgram := ⟨"weak.lp"⟩ }
  output := { directory := ⟨"out"⟩, dumpController := false, verify := false }

/-- The task of the locked door beside its programs, and a solver that prints a plan of one step, no
controller at its second call and a controller at its third. -/
def plannedDoorWorld : World Solver.Script where
  files :=
    { entries := [(["door"], .directory), (["door", "controller.lp"], .file ""),
        (["door", "weak.lp"], .file ""), (["door", "task.sas"], .file Verification.lockedDoorFile)]
      workingDirectory := ["door"] }
  solver := ⟨[.run (.finished "Answer: 1\npolicy(0,\"open()\",\"e1\")\nSATISFIABLE\n"),
    .run (.finished "UNSATISFIABLE\n"), .run (.finished idleReply)], []⟩
  clock := ⟨0⟩

/-- The run behind the backbone, with a record of its calls. -/
def plannedDoorRun : Except Trouble SolveReport × World (Recorded Solver.Script) :=
  (solve plannedDoorSettings Solver.scripted.recorded
    (List.map ConstraintProvider.withRecord [])).run.run (plannedDoorWorld.withRecord [])

theorem undisturbed_plannedDoor :
    Undisturbed plannedDoorSettings Solver.scripted [] plannedDoorWorld where
  solver_only := onlyReplies_scripted
  providers_only := by simp
  names := by simp
  working := by decide
  program name h := by
    have hname : (Path.mk "controller.lp").fileName? = some "controller.lp" := by decide
    obtain rfl : "controller.lp" = name := Option.some.inj (hname.symm.trans h)
    exact Artefact.not_isRunFile (by decide) (by decide) (by decide)

theorem plannedDoorRun_steps :
    plannedDoorRun.2.solver.exchanges.map (·.call.args) =
      [["--stats"], sizeArgs [] 1, sizeArgs [] 2] := by
  decide +kernel

theorem exists_third {calls : List Exchange} {args args' args'' : List String}
    (h : calls.map (·.call.args) = [args, args', args'']) :
    ∃ first second third, calls = [first, second, third] ∧ third.call.args = args'' := by
  obtain ⟨first, second, third, rfl⟩ := List.length_eq_three.mp
    (by simpa using congrArg List.length h)
  exact ⟨first, second, third, rfl, by simpa using (List.cons.inj (List.cons.inj h).2).2⟩

theorem solve_bound_plannedDoor :
    Undisturbed plannedDoorSettings Solver.scripted [] plannedDoorWorld ∧
      ∃ weak undo made x answer b,
        plannedDoorRun.2.solver.exchanges = weak :: undo.toList ++ made ++ [x] ∧
          x.call.args = sizeArgs [] 2 ∧
          Bound plannedDoorSettings Solver.scripted [] plannedDoorWorld weak undo made x 2 answer
            b := by
  obtain ⟨first, second, x, hexchanges, hx⟩ := exists_third plannedDoorRun_steps
  have hrun := (solve_bound plannedDoorSettings Solver.scripted [] plannedDoorWorld rfl rfl
    rfl).record
  rw [← plannedDoorRun] at hrun
  obtain ⟨weak, undo, made, answer, b, hmade, hbound⟩ := hrun.1 [first, second] x [] 2 hexchanges hx
  exact ⟨undisturbed_plannedDoor, weak, undo, made, x, answer, b,
    by rw [hexchanges, ← hmade]; rfl, hx, hbound⟩

end StrongCyclic.Synthesis
