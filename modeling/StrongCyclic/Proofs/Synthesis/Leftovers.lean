import StrongCyclic.Proofs.Search.Outputs
import StrongCyclic.Proofs.Synthesis.CallDiscipline
import StrongCyclic.Proofs.Synthesis.Checked

/-!
What a run leaves of the names that tell how it has gone. A run that ends before it comes to the search
leaves those that it has found and may add the mark that there is no weak plan. A run that comes to the
search removes the outputs it has found, copies the controller program and adds the outputs of the
sizes it attempts. `Remains` lists these two ways, and every run with a report goes one of them.
-/

namespace StrongCyclic.Synthesis

open FileTree Job Place RunDirectory Search

variable {σ : Type} {s : Settings} {solver : Solver σ} {providers : List (ConstraintProvider σ)}
  {directory : Place} {instanceFile : Path} {task : Task} {deadline : Deadline} {hints : Hints}
  {world after : World σ} {weak undo : Option Exchange} {made : List Exchange} {names : Set String}
  {report : SolveReport} {tree : FileTree}

/-! ### The calls before the search -/

theorem weakPlanCall_args {path : Path} {call : SolverCall}
    (h : Returns (weakPlanCall s path task) world call after) : call.args = ["--stats"] := by
  obtain ⟨_, between, -, h⟩ := returns_bind.mp h
  obtain ⟨program, between, -, h⟩ := returns_bind.mp h
  obtain ⟨knowledge, between, -, h⟩ := returns_bind.mp h
  obtain ⟨rfl, -⟩ := returns_pure.mp h
  rfl

theorem HintsRun.args {path : Path} {result : Except Trouble (SolveOutcome ⊕ Hints)}
    (h : HintsRun s solver path task deadline world result after weak) :
    ∀ x ∈ weak, x.call.args = ["--stats"] := by
  rintro x hx
  cases h with
  | disabled => cases hx
  | unprepared => cases hx
  | failed _ hcall =>
    cases hx
    exact weakPlanCall_args hcall
  | broken _ hcall =>
    cases hx
    exact weakPlanCall_args hcall
  | settled _ hcall =>
    cases hx
    exact weakPlanCall_args hcall

theorem UndoRun.args {path : Path} {result : Except Trouble (List Path)}
    (h : UndoRun s solver path instanceFile deadline world result after undo) :
    ∀ x ∈ undo, x.call.args = ["--stats"] := by
  rintro x hx
  cases h <;> cases hx <;> rfl

/-- The calls before the search are no calls for a controller. -/
theorem SynthesisRun.args {path : Path} {findings : Findings}
    (h : SynthesisRun s solver providers path task world (.ok findings) after weak undo made) :
    ∀ x ∈ weak.toList ++ undo.toList, x.call.args = ["--stats"] := by
  have hargs : (∀ x ∈ weak, x.call.args = ["--stats"]) ∧
      ∀ x ∈ undo, x.call.args = ["--stats"] := by
    cases h with
    | settled _ hhints => exact ⟨hhints.args, fun _ hx => by cases hx⟩
    | searched _ hhints hsearch =>
      refine ⟨hhints.args, ?_⟩
      cases hsearch with
      | done hplan =>
        cases hplan with
        | planned _ hundo => exact hundo.args
  intro x hx
  rw [List.mem_append, Option.mem_toList, Option.mem_toList] at hx
  exact hx.elim (hargs.1 x) (hargs.2 x)

theorem SolveRun.args
    (h : SolveRun s solver providers world (.ok report) after weak undo made) :
    ∀ x ∈ weak.toList ++ undo.toList, x.call.args = ["--stats"] := by
  generalize hresult : (Except.ok report : Except Trouble SolveReport) = result at h
  cases h with
  | unopened => simp
  | trivial => simp
  | synthesized _ _ hrun =>
    obtain ⟨findings, rfl, -⟩ := Fallible.map_eq_ok.mp hresult.symm
    exact hrun.args

theorem attempted_append_of_args {args : List String} {marked : Nat → Prop} {n : Nat}
    {before : List Exchange} (h : ∀ x ∈ before, x.call.args = ["--stats"]) :
    Attempted args (before ++ made) marked n ↔ Attempted args made marked n := by
  refine or_congr_left ?_
  simp only [List.mem_append, or_and_right, exists_or]
  refine or_iff_right ?_
  rintro ⟨x, hx, hargs⟩
  rw [h x hx] at hargs
  simp [sizeArgs] at hargs

/-! ### What the steps leave -/

/-- The output of every size attempted is in its file. -/
def Written (s : Settings) (directory : Place) (made : List Exchange) (marked : Nat → Prop)
    (tree : FileTree) : Prop :=
  ∀ n < Text.wordLimit, Attempted s.solver.args made marked n → ∃ text,
    tree.entry? (directory ++ [FileNames.attemptOutput n]) = some (.file text) ∧
      IsOutput s.solver.args made marked n text

/-- What is in the directory after a search: of the names before only those that are no outputs, the
controller program, and the outputs of the sizes attempted. -/
structure Searched (s : Settings) (directory : Place) (names : Set String) (made : List Exchange)
    (marked : Nat → Prop) (program : String) (tree : FileTree) : Prop where
  lists : Lists directory {name | (name ∈ names ∧ FileNames.attemptSize? name = none) ∨
    name = program ∨
      ∃ n, Attempted s.solver.args made marked n ∧ name = FileNames.attemptOutput n} tree
  written : Written s directory made marked tree

theorem tells_attemptOutput {n : Nat} (hn : n < Text.wordLimit) :
    Tells (FileNames.attemptOutput n) :=
  .inl (by simp [FileNames.attemptSize?_attemptOutput hn])

theorem stable_searched {marked : Nat → Prop} {program : String} :
    StableUnder (¬ Tells ·) directory fun world : World σ =>
      Searched s directory names made marked program world.files := by
  intro world place entry hother h
  refine ⟨stable_lists world place entry hother h.lists, fun n hn hattempted => ?_⟩
  obtain ⟨text, hentry, houtput⟩ := h.written n hn hattempted
  exact ⟨text, stable_entry (not_not.mpr (tells_attemptOutput hn)) _ world place entry hother hentry,
    houtput⟩

/-- The calls before the search do not count as attempts. -/
theorem Searched.prepend {before : List Exchange} {marked : Nat → Prop} {program : String}
    (h : Searched s directory names made marked program tree)
    (hbefore : ∀ x ∈ before, x.call.args = ["--stats"]) :
    Searched s directory names (before ++ made) marked program tree where
  lists := by
    simp only [attempted_append_of_args hbefore]
    exact h.lists
  written n hn hattempted := by
    obtain ⟨text, hentry, houtput⟩ :=
      h.written n hn ((attempted_append_of_args hbefore).mp hattempted)
    refine ⟨text, hentry, houtput.imp_left ?_⟩
    exact fun ⟨x, hx, hreply⟩ => ⟨x, List.mem_append_right _ hx, hreply⟩

section Leaving

theorem keeps_checkSolution {aside : String → Prop} {K : World σ → Prop}
    (hK : StableUnder aside directory K) (hnames : HasRunNames aside) (hplace : Proper directory)
    (outcome : SolveOutcome) : Keeps K (checkSolution s (pathOf directory) outcome) := by
  cases outcome with
  | solved size states output =>
    rw [checkSolution]
    split
    · exact .bind (keeps_check hK hnames hplace) fun _ => keeps_pure
    · split
      · exact .bind (keeps_rebuild hK hnames hplace) fun _ => keeps_pure
      · exact keeps_pure
  | _ => exact keeps_pure

theorem opening_lists {path : Path} (hworking : Proper world.files.workingDirectory)
    (h : Returns (opening s) world (path, task) after) :
    ∃ directory prepared, Proper directory ∧ path = pathOf directory ∧
      world.files.createDirectories s.output.directory = .ok prepared ∧
      prepared.resolve s.output.directory = .ok directory ∧
      Lists directory {name | name ∈ prepared.namesIn directory} after.files := by
  obtain ⟨path', opened, hprepare, h⟩ := returns_bind.mp h
  obtain ⟨task', loaded, hload, h⟩ := returns_bind.mp h
  obtain ⟨_, copied, hcopy, h⟩ := returns_bind.mp h
  obtain ⟨heq, rfl⟩ := returns_pure.mp h
  obtain ⟨rfl, rfl⟩ := Prod.mk.inj heq
  obtain ⟨-, rfl⟩ := loadTask_returns hload
  obtain ⟨directory, hcreate, hresolve, rfl⟩ := exists_of_prepare hprepare
  have hworking' : Proper opened.files.workingDirectory :=
    workingDirectory_of_createWithin hcreate ▸ hworking
  have hplace := proper_of_resolve hworking' hresolve
  exact ⟨directory, opened.files, hplace, rfl, hcreate, hresolve,
    keeps_copyInto stable_lists hplace _ (by decide) (by decide) hcopy (lists_self directory _)⟩

variable (hsolver : solver.OnlyReplies)
  (hproviders : ∀ provider ∈ providers, provider.OnlyReplies) (hplace : Proper directory)

include hplace

theorem useWeakReply_lists {run : SolverRun}
    (h : Returns (useWeakReply s (pathOf directory) run) world (.inl .unsolvable) after)
    (hworld : Lists directory names world.files) :
    Lists directory (insert FileNames.unsolvable names) after.files := by
  obtain ⟨estimate, between, hestimate, h⟩ := returns_bind.mp h
  have hread := keeps_readEstimate stable_lists hplace hasRunNames_not_tells run
    (returns_during.mp hestimate) hworld
  cases estimate with
  | unsolvable =>
    obtain ⟨_, last, hmark, h⟩ := returns_bind.mp h
    obtain ⟨-, rfl⟩ := returns_pure.mp h
    obtain ⟨files, hwrite, rfl⟩ := returns_change.mp (returns_mapError.mp hmark)
    obtain rfl := eq_put_of_write_join hplace (by decide) hwrite
    exact hread.put _ _
  | timedOut => cases (returns_pure.mp h).1
  | found b =>
    rw [useEstimate] at h
    split at h
    · cases (returns_pure.mp h).1
    · obtain ⟨_, last, -, h⟩ := returns_bind.mp h
      cases (returns_pure.mp h).1

include hsolver

/-- The search for hints sets the mark if it finds out that there is no weak plan. -/
theorem HintsRun.lists {found : SolveOutcome ⊕ Hints}
    (h : HintsRun s solver (pathOf directory) task deadline world (.ok found) after weak)
    (hworld : Lists directory names world.files) :
    Lists directory {name | name ∈ names ∨ found = .inl .unsolvable ∧ name = FileNames.unsolvable}
      after.files := by
  by_cases hfound : found = .inl .unsolvable
  · subst hfound
    cases h with
    | settled _ hcall hreply huse =>
      have hcalled := keeps_weakPlanCall stable_lists hplace hasRunNames_not_tells task hcall hworld
      dsimp only at hcalled
      rw [← hsolver _ _ hreply] at hcalled
      refine (useWeakReply_lists hplace huse hcalled).congr fun name _ => ?_
      simp [or_comm]
  · refine (h.keeps stable_lists hplace hasRunNames_not_tells hsolver
      (fun heq => absurd heq hfound) hworld).congr fun name _ => ?_
    simp [hfound]

include hproviders

/-- The steps up to the search remove the outputs and copy the program. -/
theorem PlanRun.lists {plan : SearchPlan}
    (h : PlanRun s solver providers (pathOf directory) instanceFile task deadline hints world
      (.ok plan) after undo) (hworld : Lists directory names world.files) :
    ∃ program, s.solver.controllerModel.fileName? = some program ∧
      Lists directory (insert program {name | name ∈ names ∧ FileNames.attemptSize? name = none})
        after.files := by
  cases h with
  | planned hclean hundo hgather =>
    obtain ⟨count, cleaned, hremove, hcopy⟩ := returns_bind.mp hclean
    have hcleaned := removeOutputs_lists hplace (returns_asTrouble.mp hremove) hworld
    obtain ⟨program, hprogram, hcopied⟩ := copyProgram_lists hplace hcopy hcleaned
    have hforbidden := hundo.keeps stable_lists hplace hasRunNames_not_tells hsolver hcopied
    have hall := List.forall_mem_cons.mpr ⟨onlyReplies_loadAll s.constraints.files, hproviders⟩
    exact ⟨program, hprogram,
      keeps_writeConstraints stable_lists hasRunNames_not_tells hall _ _ _ hgather hforbidden⟩

theorem ControllerRun.searched {findings : Findings}
    (h : ControllerRun s solver providers (pathOf directory) instanceFile task deadline hints world
      (.ok findings) after undo made) (hworld : Lists directory names world.files) :
    ∃ program, s.solver.controllerModel.fileName? = some program ∧
      Searched s directory names made (fun n => findings.outcome = .timedOut n) program
        after.files := by
  cases h with
  | done hplan hsizes hcheck =>
    obtain ⟨program, hprogram, hlists⟩ := hplan.lists hsolver hproviders hplace hworld
    have hleaves := hsizes.leaves hsolver hplace hplan.planned_iff.2.directory
    rw [hplan.planned_iff.2.args] at hleaves
    refine ⟨program, hprogram, keeps_checkSolution stable_searched hasRunNames_not_tells hplace _
      hcheck ⟨fun name htells => ?_, fun n _ hn => hleaves.written n hn⟩⟩
    rw [hleaves.names, hlists name htells, Set.mem_insert_iff, or_assoc]
    exact or_left_comm

/-- How a run ends, with what it leaves of the names that it has found. -/
inductive Remains (s : Settings) (directory : Place) (names : Set String) (report : SolveReport) :
    List Exchange → FileTree → Prop
  | ended {tree : FileTree} (hcame : ¬ CameToSearch s report)
    (hlists : Lists directory {name | name ∈ names ∨
      report.outcome = .unsolvable ∧ name = FileNames.unsolvable} tree) :
    Remains s directory names report [] tree
  | searched {made : List Exchange} {program : String} {tree : FileTree}
    (hcame : CameToSearch s report)
    (hprogram : s.solver.controllerModel.fileName? = some program)
    (hsearched : Searched s directory names made (fun n => report.outcome = .timedOut n) program
      tree) :
    Remains s directory names report made tree

theorem SynthesisRun.remains {findings : Findings}
    (h : SynthesisRun s solver providers (pathOf directory) task world (.ok findings) after weak undo
      made) (hworld : Lists directory names world.files) (start now : Duration) :
    Remains s directory names (reportOn start task findings now) made after.files := by
  have hwritten {u : Unit} {written : World σ} (hwrite : Returns (writeInstance s task .controller
      ((pathOf directory).join FileNames.controllerInstance)) world u written) :
      Lists directory names written.files :=
    keeps_writeInstance stable_lists hplace task _ (by decide) (by decide) hwrite hworld
  cases h with
  | settled hwrite hhints =>
    refine .ended (hhints.not_came start now) ?_
    refine (hhints.lists hsolver hplace (hwritten hwrite)).congr fun name _ => ?_
    simp [reportOn]
  | searched hwrite hhints hsearch =>
    have hkept := hhints.keeps stable_lists hplace hasRunNames_not_tells hsolver
      (by simp) (hwritten hwrite)
    obtain ⟨program, hprogram, hsearched⟩ := hsearch.searched hsolver hproviders hplace hkept
    exact .searched (hsearch.came hhints start now) hprogram hsearched

omit hplace in
theorem SolveRun.remains (hworking : Proper world.files.workingDirectory)
    (h : SolveRun s solver providers world (.ok report) after weak undo made) :
    ∃ directory prepared, Proper directory ∧
      world.files.createDirectories s.output.directory = .ok prepared ∧
      prepared.resolve s.output.directory = .ok directory ∧
      Remains s directory {name | name ∈ prepared.namesIn directory} report made after.files := by
  generalize hresult : (Except.ok report : Except Trouble SolveReport) = result at h
  cases h with
  | unopened => cases hresult
  | trivial hopen hgoal =>
    obtain rfl := Except.ok.inj hresult
    obtain ⟨directory, prepared, hplace, rfl, hcreate, hresolve, hlists⟩ :=
      opening_lists hworking hopen
    refine ⟨directory, prepared, hplace, hcreate, hresolve,
      .ended (by simp [CameToSearch, reportOn]) (hlists.congr fun name _ => ?_)⟩
    simp [reportOn]
  | synthesized hopen hgoal hrun =>
    obtain ⟨findings, rfl, rfl⟩ := Fallible.map_eq_ok.mp hresult.symm
    obtain ⟨directory, prepared, hplace, rfl, hcreate, hresolve, hlists⟩ :=
      opening_lists hworking hopen
    exact ⟨directory, prepared, hplace, hcreate, hresolve,
      hrun.remains hsolver hproviders hplace hlists _ _⟩

end Leaving

end StrongCyclic.Synthesis
