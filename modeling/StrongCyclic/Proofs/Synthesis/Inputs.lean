import StrongCyclic.Proofs.Search.Reaches
import StrongCyclic.Proofs.Synthesis.Furnishing
import StrongCyclic.Proofs.Synthesis.Searches

/-!
What the solver reads when it is called for a controller. Every input is a file of the run and holds
the text that it is meant to hold, if the controller program is not called like another file of a run.
The program is copied under its own name, so that one called like the instance takes its place.
-/

namespace StrongCyclic.Synthesis

open FileTree Job Place RunDirectory Search

variable {σ : Type} {s : Settings} {solver : Solver σ} {providers : List (ConstraintProvider σ)}
  {world planned seen after : World σ} {directory : Place} {task : Task} {hints : Hints}
  {deadline : Deadline} {range : SizeRange} {plan : SearchPlan} {program : String}
  {sources : Sources} {prepared tree : FileTree} {made : List Exchange} {a : Artefact} {text : String}

/-! ### The inputs -/

/-- The files that are passed to the solver, in their order. -/
def inputArtefacts (s : Settings) (files : List ConstraintFile) : List Artefact :=
  .program :: .controllerInstance ::
    ((if s.backbone.enabled && !s.backbone.sizeOnly then [.backbone] else []) ++
      (if s.constraints.undoProgram.isSome then [.undoConstraints] else []) ++
      (files.zipIdx 1).map fun entry => .constraint entry.2 entry.1.name)

theorem map_inputArtefacts (s : Settings) (directory : Path) (program : String)
    (files : List ConstraintFile) :
    (inputArtefacts s files).map (fun a => directory.join (a.name program)) =
      directory.join program :: directory.join FileNames.controllerInstance ::
        (backbonePaths s directory ++ undoPaths s directory ++ numberedPaths directory 1 files) := by
  simp only [inputArtefacts, List.map_cons, List.map_append, List.map_map]
  congr 4
  · rw [backbonePaths]
    split <;> rfl
  · rw [undoPaths]
    split <;> rfl

/-- Backbone constraints come from the plan that the call for a weak plan has given. -/
theorem HintsRun.exists_meant
    (h : HintsRun s solver (pathOf directory) task deadline world (.ok (.inr hints)) after
      sources.weak)
    (hlisted : (s.backbone.enabled && !s.backbone.sizeOnly) = true) :
    ∃ text, Meant s sources made .backbone text := by
  obtain ⟨henabled, hsize⟩ := Bool.and_eq_true_iff.mp hlisted
  generalize hweak : sources.weak = weak at h
  cases h with
  | disabled hdisabled => simp [hdisabled] at henabled
  | settled _ _ _ _ hfound =>
    cases hfound with
    | found hread hplan =>
      exact ⟨_, .backbone (by simpa using hsize) hweak rfl hread hplan⟩

/-- Undo constraints come from the output of the call for undo pairs. -/
theorem UndoRun.exists_meant {instanceFile : Path} {paths : List Path}
    (h : UndoRun s solver (pathOf directory) instanceFile deadline world (.ok paths) after
      sources.undo)
    (hset : s.constraints.undoProgram.isSome = true) :
    ∃ text, Meant s sources made .undoConstraints text := by
  generalize hundo : sources.undo = undo at h
  cases h with
  | unset hunset => simp [hunset] at hset
  | settled _ _ _ huse =>
    obtain ⟨file, detected, hdetect, -⟩ := returns_bind.mp huse
    obtain ⟨_, between, -, hdetect⟩ := returns_bind.mp (returns_during.mp hdetect)
    obtain ⟨out, between, hreading, -⟩ := returns_bind.mp hdetect
    exact ⟨_, .undoConstraints hundo rfl (returns_ofExcept.mp hreading).1⟩

theorem exists_meant_of_mem_inputs
    (hbackbone : (s.backbone.enabled && !s.backbone.sizeOnly) = true →
      ∃ text, Meant s sources made .backbone text)
    (hundo : s.constraints.undoProgram.isSome = true →
      ∃ text, Meant s sources made .undoConstraints text)
    (ha : a ∈ inputArtefacts s sources.constraints) (hprogram : a ≠ .program) :
    ∃ text, Meant s sources made a text := by
  rw [inputArtefacts, List.mem_cons, List.mem_cons, List.mem_append, List.mem_append] at ha
  rcases ha with rfl | rfl | (ha | ha) | ha
  · exact absurd rfl hprogram
  · exact ⟨_, .controllerInstance⟩
  · split at ha
    · next hlisted =>
      obtain rfl := List.mem_singleton.mp ha
      exact hbackbone hlisted
    · cases ha
  · split at ha
    · next hset =>
      obtain rfl := List.mem_singleton.mp ha
      exact hundo hset
    · cases ha
  · obtain ⟨⟨file, index⟩, hmem, rfl⟩ := List.mem_map.mp ha
    obtain ⟨k, rfl⟩ := Nat.exists_eq_add_of_le (List.le_snd_of_mem_zipIdx hmem)
    have hfile := List.mk_add_mem_zipIdx_iff_getElem?.mp hmem
    rw [Nat.add_comm]
    exact ⟨_, .constraint hfile⟩

/-! ### What the inputs are made from -/

/-- What the files of a run are made from: the task and the controller program as they are when the
directory has been made, and the programs from outside as they are when they are loaded. -/
structure IsSources (s : Settings) (providers : List (ConstraintProvider σ)) (tree : FileTree)
    (directory : Place) (prepared : FileTree) (program : String) (sources : Sources) : Prop where
  created : tree.createDirectories s.output.directory = .ok prepared
  leads : prepared.resolve s.output.directory = .ok directory
  taskText : prepared.read s.taskFile = .ok sources.taskText
  task : Sas.parse sources.taskText = .ok sources.task
  called : s.solver.controllerModel.fileName? = some program
  programText : sources.programText = (prepared.read s.solver.controllerModel).toOption
  constraints : ∃ loaded static provided,
    Touches directory (Artefact.namesBefore program 8) prepared loaded ∧
    LoadedFrom s loaded static ∧ Provided providers sources.task provided ∧
    sources.constraints = static ++ provided.flatten

/-- A run that comes to the search has furnished its directory. -/
structure Furnishes (s : Settings) (directory : Place) (program : String) (sources : Sources)
    (plan : SearchPlan) (prepared tree : FileTree) : Prop where
  plan : plan =
    { controllerModel := (pathOf directory).join program
      instanceFile := (pathOf directory).join FileNames.controllerInstance
      constraints := backbonePaths s (pathOf directory) ++ undoPaths s (pathOf directory) ++
        numberedPaths (pathOf directory) 1 sources.constraints
      args := s.solver.args
      directory := pathOf directory }
  names : ∀ file ∈ sources.constraints, '/' ∉ file.name.toList
  meant : ∀ made, ∀ a ∈ inputArtefacts s sources.constraints, a ≠ .program →
    ∃ text, Meant s sources made a text
  furnished : ∀ made, Furnished directory program (Meant s sources made) 9 prepared tree

theorem Plans.furnishes {path : Path} {weak undo : Option Exchange}
    (hsolver : solver.OnlyReplies) (hproviders : ∀ provider ∈ providers, provider.OnlyReplies)
    (hnames : ∀ provider ∈ providers, provider.GivesNames)
    (hworking : Proper world.files.workingDirectory)
    (hown : ∀ name, s.solver.controllerModel.fileName? = some name → ¬ IsRunFile name)
    (h : Plans s solver providers world weak undo path plan range deadline planned) :
    ∃ directory prepared program sources, Proper directory ∧ path = pathOf directory ∧
      ¬ IsRunFile program ∧ IsEntryName program ∧ sources.weak = weak ∧ sources.undo = undo ∧
      IsSources s providers world.files directory prepared program sources ∧
      Furnishes s directory program sources plan prepared planned.files := by
  cases h with
  | @planned _ task _ _ _ opened _ _ _ forbidden _ hopen _ hwrite hhints hclean hundo hgather =>
  obtain ⟨directory, prepared, taskText, hplace, rfl, hcreate, hresolve, hread, hparse, hworking',
    htouches, hcopied⟩ := opening_furnishes hworking hopen
  obtain ⟨program, hlast, rfl⟩ := clean_returns hclean
  obtain ⟨static, provided, hloaded, hprovided, hplain, rfl, hwrites⟩ :=
    gather_writes hplace program hproviders hnames hgather
  have hprogram := hown program hlast
  have hentry := isEntryName_of_fileName? hlast
  let sources : Sources :=
    ⟨taskText, task, (prepared.read s.solver.controllerModel).toOption, weak, undo,
      static ++ provided.flatten⟩
  have hbefore (made : List Exchange) :
      Furnished directory program (Meant s sources made) 8 prepared forbidden.files := by
    have hnamed : ∀ a text, Meant s sources made a text → IsEntryName (a.name program) :=
      fun a text hmeant => hmeant.isEntryName hentry hplain
    have hopened : Furnished directory program (Meant s sources made) 1 prepared opened.files := by
      refine (furnished_prepared directory program _ prepared).next hplace hprogram hnamed
        (a := .task) (by decide) htouches ?_
      rintro _ ⟨⟩
      exact hcopied
    have hwritten := writeInstance_furnishes hplace hprogram hnamed hwrite hopened
    have hhinted := HintsRun.furnishes hplace hprogram hnamed hsolver hhints hwritten
    obtain ⟨-, hcleaned⟩ :=
      clean_furnishes hplace hprogram hnamed hworking' hlast rfl hclean hhinted
    exact UndoRun.furnishes hplace hprogram hnamed hsolver hundo hcleaned
  refine ⟨directory, prepared, program, sources, hplace, rfl, hprogram, hentry, rfl, rfl,
    ⟨hcreate, hresolve, hread, hparse, hlast, rfl, ?_⟩, ?_, hplain, ?_, ?_⟩
  · exact ⟨_, static, provided, (hbefore []).touches, hloaded, hprovided, rfl⟩
  · rw [hhints.hinted.2.2.1, hundo.forbidden.2]
  · exact fun made a => exists_meant_of_mem_inputs (HintsRun.exists_meant hhints)
      (UndoRun.exists_meant hundo)
  · intro made
    exact furnished_of_writesNumbered hplace hprogram
      (fun a text hmeant => hmeant.isEntryName hentry hplain) hwrites (hbefore made)

/-! ### The calls -/

theorem Reaches.furnished {n m : Nat} (hplace : Proper directory) (hprogram : ¬ IsRunFile program)
    (hentry : ∀ a text, Meant s sources made a text → IsEntryName (a.name program))
    (hsolver : solver.OnlyReplies) (hargs : plan.args = s.solver.args)
    (hdirectory : plan.directory = pathOf directory)
    (h : Reaches solver plan range deadline n planned made m seen)
    (hplanned : Furnished directory program (Meant s sources made) 9 prepared planned.files) :
    Furnished directory program (Meant s sources made) 10 prepared seen.files := by
  refine hplanned.step hplace hprogram hentry (h.touches hsolver hplace hdirectory) ?_ ?_
  · rintro name ⟨size, -, -, -, rfl⟩
    exact ⟨.output size, rfl, rfl⟩
  · intro a text hmeant hphase
    cases hmeant with
    | output hmade hsize hlast hreply =>
      rw [← hargs] at hsize hlast
      exact h.reads hsolver hplace hdirectory hmade hsize hlast hreply
    | _ => cases hphase

theorem Meant.phase_lt (h : Meant s sources made a text) : a.phase < 10 := by
  cases h <;> simp [Artefact.phase]

/-- The outputs apart, files are written before the search. -/
theorem Meant.phase_lt_search (h : Meant s sources [] a text) : a.phase < 9 := by
  cases h with
  | output hmade => simp at hmade
  | _ => simp [Artefact.phase]

/-- What has been written before the search is there at the end of the run. -/
theorem SizesRun.reads_end {n : Nat} {outcome : SolveOutcome} {searched : World σ}
    {check : Option RunCheck} (hplace : Proper directory) (hprogram : ¬ IsRunFile program)
    (hentry : ∀ a text, Meant s sources [] a text → IsEntryName (a.name program))
    (hsolver : solver.OnlyReplies) (hdirectory : plan.directory = pathOf directory)
    (hplanned : Furnished directory program (Meant s sources []) 9 prepared planned.files)
    (hsizes : SizesRun solver plan range deadline n planned (.ok outcome) searched made)
    (hcheck : Returns (checkSolution s (pathOf directory) outcome) searched check after)
    (hmeant : Meant s sources [] a text) :
    after.files.read ((pathOf directory).join (a.name program)) = .ok text := by
  have hphase := hmeant.phase_lt_search
  have hend : Touches directory endNames searched.files after.files :=
    checkSolution_touches hplace outcome hcheck (.refl _ _ _)
  refine (((hsizes.touches hsolver hplace hdirectory).trans hend).read_join hplace
    (hentry a text hmeant) ?_).mpr (hplanned.reads a text hmeant hphase)
  have hother {b : Artefact} (hb : 9 ≤ b.phase) : b.name program ≠ a.name program := by
    intro hsame
    obtain rfl := Artefact.name_injective hprogram hsame
    omega
  rintro (⟨size, hsame⟩ | hsame | hsame | hsame)
  · exact hother (b := .output size) (by simp [Artefact.phase]) hsame
  · exact hother (b := .controllerText) (by decide) hsame.symm
  · exact hother (b := .controllerGraph) (by decide) hsame.symm
  · exact hother (b := .verification) (by decide) hsame.symm

/-- The run comes to the call in the world, when it has made these calls for controllers. -/
def ComesTo (s : Settings) (solver : Solver σ) (providers : List (ConstraintProvider σ))
    (world : World σ) (weak undo : Option Exchange) (made : List Exchange) (seen : World σ)
    (x : Exchange) : Prop :=
  ∃ directory plan range deadline planned n,
    Plans s solver providers world weak undo directory plan range deadline planned ∧
    Reaches solver plan range deadline range.min planned made n seen ∧
    MadeIn solver plan deadline n seen x

/-- The call reads what it is meant to read: every input is a file of the run with a text that it is
meant to have, and every file of the run has the text that it is meant to have. No two files share a
name, and nothing else in the directory has been touched. -/
structure ReadsMeant (s : Settings) (directory : Place) (program : String) (sources : Sources)
    (made : List Exchange) (x : Exchange) (prepared tree : FileTree) : Prop where
  inputs : x.call.inputs = (inputArtefacts s sources.constraints).map
    fun a => (pathOf directory).join (a.name program)
  meant : ∀ a ∈ inputArtefacts s sources.constraints, a ≠ .program →
    ∃ text, Meant s sources made a text
  reads : ∀ a text, Meant s sources made a text →
    tree.read ((pathOf directory).join (a.name program)) = .ok text
  distinct : Function.Injective (Artefact.name program)
  touches : Touches directory (Artefact.namesBefore program 10) prepared tree

theorem sizeArgs_ne_stats (args : List String) (n : Nat) : sizeArgs args n ≠ ["--stats"] := by
  simp [sizeArgs]

/-- A call for a controller comes after the calls for the hints. -/
theorem exists_of_append_eq {before later : List Exchange} {x : Exchange} {earlier : List Exchange}
    (hnot : x ∉ before) (h : before ++ made = earlier ++ x :: later) :
    ∃ first, earlier = before ++ first ∧ made = first ++ x :: later := by
  obtain ⟨first, rfl, rfl⟩ | ⟨rest, rfl, hrest⟩ := List.append_eq_append_iff.mp h
  · exact ⟨first, rfl, rfl⟩
  · cases rest with
    | nil => exact ⟨[], by simp, by simpa using hrest.symm⟩
    | cons y rest =>
      obtain ⟨rfl, -⟩ := List.cons.inj hrest
      simp at hnot

/-- Every call for a controller reads what it is meant to read, and at the end of the run the files
still have the texts that they are meant to have. -/
theorem solve_readsMeant (s : Settings) (solver : Solver σ)
    (providers : List (ConstraintProvider σ)) (world : World σ) (hsolver : solver.OnlyReplies)
    (hproviders : ∀ provider ∈ providers, provider.OnlyReplies)
    (hnames : ∀ provider ∈ providers, provider.GivesNames)
    (hworking : Proper world.files.workingDirectory)
    (hown : ∀ name, s.solver.controllerModel.fileName? = some name → ¬ IsRunFile name) :
    Traced (solve s solver.recorded (providers.map ConstraintProvider.withRecord))
      (solve s solver providers) world fun result after trace =>
        ∀ earlier x later n, trace = earlier ++ x :: later →
          x.call.args = sizeArgs s.solver.args n →
          ∃ directory prepared program sources made seen,
            IsSources s providers world.files directory prepared program sources ∧
            earlier = sources.weak.toList ++ sources.undo.toList ++ made ∧
            ComesTo s solver providers world sources.weak sources.undo made seen x ∧
            ReadsMeant s directory program sources made x prepared seen.files ∧
            ∀ report, result = .ok report → ∀ a text, Meant s sources [] a text →
              after.files.read ((pathOf directory).join (a.name program)) = .ok text := by
  refine (traced_solve_plans s solver providers world).imp ?_
  intro result after trace hsearches earlier x later n htrace hsize
  have hnot {before : List Exchange} (hargs : ∀ y ∈ before, y.call.args = ["--stats"]) :
      x ∉ before := fun hx => sizeArgs_ne_stats _ _ (hsize.symm.trans (hargs x hx))
  cases hsearches with
  | early hargs => exact absurd (by simp [htrace]) (hnot hargs)
  | searched hargs hplans hsizes hend =>
    obtain ⟨first, rfl, rfl⟩ := exists_of_append_eq (hnot hargs) htrace
    obtain ⟨directory, prepared, program, sources, hplace, rfl, hprogram, hentry, rfl, rfl, hsources,
      rfl, hplain, hmeant, hfurnished⟩ :=
      hplans.furnishes hsolver hproviders hnames hworking hown
    have hnamed (made : List Exchange) (a : Artefact) (text : String)
        (h : Meant s sources made a text) : IsEntryName (a.name program) :=
      h.isEntryName hentry hplain
    obtain ⟨m, seen, hreaches, hcall⟩ := hsizes.reaches rfl
    have hseen := Reaches.furnished hplace hprogram (hnamed first) hsolver rfl rfl hreaches
      (hfurnished first)
    refine ⟨directory, prepared, program, sources, first, seen, hsources, rfl,
      ⟨_, _, _, _, _, m, hplans, hreaches, hcall⟩,
      ⟨?_, hmeant first, fun a text h => hseen.reads a text h h.phase_lt,
        Artefact.name_injective hprogram, hseen.touches⟩, ?_⟩
    · rw [map_inputArtefacts, hcall.call]
      rfl
    · rintro report rfl a text h
      obtain ⟨outcome, check, rfl, hcheck⟩ := hend report rfl
      exact SizesRun.reads_end hplace hprogram (hnamed []) hsolver rfl (hfurnished []) hsizes hcheck
        h

/-! ### A program that is called like the instance -/

/-- A provider whose program is called like the instance. -/
def doorProvider : ConstraintProvider Solver.Script :=
  fun _ => return [⟨"instance", ":- policy(0, A)."⟩]

/-- The run for the locked door, with a record of its calls. -/
def recordedDoorRun (program : String) (providers : List (ConstraintProvider Solver.Script)) :
    Except Trouble SolveReport × World (Recorded Solver.Script) :=
  (solve (lockedDoorSettings program) Solver.scripted.recorded
    (providers.map ConstraintProvider.withRecord)).run.run
      ((lockedDoorWorld program "#show.").withRecord [])

/-- The call of the run for the locked door. -/
def doorCall (files : List String) : SolverCall where
  inputs := files.map fun file => ⟨"/door/out/" ++ file⟩
  args := sizeArgs [] 1
  directory := ⟨"/door/out"⟩

theorem onlyReplies_doorProvider : doorProvider.OnlyReplies := by
  intro task world files after h
  obtain ⟨-, rfl⟩ := returns_pure.mp h
  rfl

theorem givesNames_doorProvider : doorProvider.GivesNames := by
  intro task world files after h file hfile
  obtain ⟨rfl, -⟩ := returns_pure.mp h
  obtain rfl := List.mem_singleton.mp hfile
  decide

theorem recordedDoorRun_controller :
    (recordedDoorRun "controller.lp" [doorProvider]).1 = .ok (lockedDoorReport idleCheck) ∧
      (recordedDoorRun "controller.lp" [doorProvider]).2.solver.exchanges.map Exchange.call =
        [doorCall ["controller.lp", "instance.lp", "constraint_1_instance.lp"]] := by
  decide +kernel

theorem solve_readsMeant_lockedDoor :
    (recordedDoorRun "controller.lp" [doorProvider]).1 = .ok (lockedDoorReport idleCheck) ∧
      ∃ x, (recordedDoorRun "controller.lp" [doorProvider]).2.solver.exchanges = [x] ∧
        x.call = doorCall ["controller.lp", "instance.lp", "constraint_1_instance.lp"] ∧
        ∃ directory prepared program sources seen,
          IsSources (lockedDoorSettings "controller.lp") [doorProvider]
            (lockedDoorWorld "controller.lp" "#show.").files directory prepared program sources ∧
          ComesTo (lockedDoorSettings "controller.lp") Solver.scripted [doorProvider]
            (lockedDoorWorld "controller.lp" "#show.") sources.weak sources.undo [] seen x ∧
          ReadsMeant (lockedDoorSettings "controller.lp") directory program sources [] x prepared
            seen.files ∧
          ∀ a text, Meant (lockedDoorSettings "controller.lp") sources [] a text →
            (recordedDoorRun "controller.lp" [doorProvider]).2.files.read
              ((pathOf directory).join (a.name program)) = .ok text := by
  obtain ⟨hreport, hcalls⟩ := recordedDoorRun_controller
  obtain ⟨x, hexchanges, hcall⟩ := List.map_eq_singleton_iff.mp hcalls
  have hname : (Path.mk "controller.lp").fileName? = some "controller.lp" := by decide
  have hown : ∀ name, (lockedDoorSettings "controller.lp").solver.controllerModel.fileName? =
      some name → ¬ IsRunFile name := by
    intro name h
    obtain rfl : "controller.lp" = name := Option.some.inj (hname.symm.trans h)
    exact Artefact.not_isRunFile (by decide) (by decide) (by decide)
  have hrun := (solve_readsMeant (lockedDoorSettings "controller.lp") Solver.scripted [doorProvider]
    (lockedDoorWorld "controller.lp" "#show.") onlyReplies_scripted
    (List.forall_mem_singleton.mpr onlyReplies_doorProvider)
    (List.forall_mem_singleton.mpr givesNames_doorProvider) (by decide) hown).record
  rw [World.files_withoutRecord, ← recordedDoorRun] at hrun
  obtain ⟨directory, prepared, program, sources, made, seen, hsources, hmade, hcomes, hreads,
    hend⟩ := hrun [] x [] 1 hexchanges (by rw [hcall]; rfl)
  obtain ⟨-, rfl⟩ := List.append_eq_nil_iff.mp hmade.symm
  exact ⟨hreport, x, hexchanges, hcall, directory, prepared, program, sources, seen, hsources,
    hcomes, hreads, hend _ hreport⟩

theorem recordedDoorRun_instance :
    (recordedDoorRun "instance.lp" []).2.solver.exchanges.map Exchange.call =
      [doorCall ["instance.lp", "instance.lp"]] := by
  decide +kernel

/-- What is read for the locked door when the directory has been made. -/
theorem prepared_instance :
    (FileTree.createDirectories (lockedDoorWorld "instance.lp" "#show.").files ⟨"out"⟩ >>=
      fun prepared => return (← prepared.read ⟨"task.sas"⟩, ← prepared.read ⟨"instance.lp"⟩)) =
    .ok (Verification.lockedDoorFile, "#show.") := by
  decide +kernel

theorem isSources_instance
    (h : IsSources (lockedDoorSettings "instance.lp")
      ([] : List (ConstraintProvider Solver.Script)) (lockedDoorWorld "instance.lp" "#show.").files
      directory prepared program sources) :
    program = "instance.lp" ∧ sources.programText = some "#show." ∧
      Sas.parse Verification.lockedDoorFile = .ok sources.task := by
  have hname : (Path.mk "instance.lp").fileName? = some "instance.lp" := by decide
  obtain ⟨prepared', hcreate, hread⟩ := Fallible.bind_eq_ok.mp prepared_instance
  obtain rfl := Except.ok.inj (hcreate.symm.trans h.created)
  obtain ⟨taskText, htask, hread⟩ := Fallible.bind_eq_ok.mp hread
  obtain ⟨text, htext, hread⟩ := Fallible.bind_eq_ok.mp hread
  obtain ⟨rfl, rfl⟩ := Prod.mk.inj (Except.ok.inj hread)
  refine ⟨(Option.some.inj (hname.symm.trans h.called)).symm, ?_, ?_⟩
  · rw [h.programText, Fallible.toOption_eq_some]
    exact htext
  · rw [Except.ok.inj (htask.symm.trans h.taskText)]
    exact h.task

/-- A controller program that is called like the instance takes its place: at the only call, the file
that should hold the instance holds the program. -/
theorem not_forall_readsMeant :
    ¬ ∀ (σ : Type) (s : Settings) (solver : Solver σ) (providers : List (ConstraintProvider σ))
        (world : World σ), solver.OnlyReplies →
        (∀ provider ∈ providers, provider.OnlyReplies) →
        (∀ provider ∈ providers, provider.GivesNames) → Proper world.files.workingDirectory →
        Returns s.check world () world →
        Traced (solve s solver.recorded (providers.map ConstraintProvider.withRecord))
          (solve s solver providers) world fun _ _ trace =>
            ∀ earlier x later n, trace = earlier ++ x :: later →
              x.call.args = sizeArgs s.solver.args n →
              ∃ directory prepared program sources made seen,
                IsSources s providers world.files directory prepared program sources ∧
                earlier = sources.weak.toList ++ sources.undo.toList ++ made ∧
                ComesTo s solver providers world sources.weak sources.undo made seen x ∧
                ∀ a text, Meant s sources made a text →
                  seen.files.read ((pathOf directory).join (a.name program)) = .ok text := by
  intro hall
  obtain ⟨x, hexchanges, hcall⟩ := List.map_eq_singleton_iff.mp recordedDoorRun_instance
  have hchecked : Returns (lockedDoorSettings "instance.lp").check
      (lockedDoorWorld "instance.lp" "#show.") () (lockedDoorWorld "instance.lp" "#show.") :=
    rfl
  have hrun := (hall _ (lockedDoorSettings "instance.lp") Solver.scripted []
    (lockedDoorWorld "instance.lp" "#show.") onlyReplies_scripted (by simp) (by simp) (by decide)
    hchecked).record
  rw [← recordedDoorRun] at hrun
  obtain ⟨directory, prepared, program, sources, made, seen, hsources, -, -, hreads⟩ :=
    hrun [] x [] 1 hexchanges (by rw [hcall]; rfl)
  obtain ⟨rfl, htext, htask⟩ := isSources_instance hsources
  have hprogram := hreads _ _ (.program htext)
  have hinstance := hreads _ _ .controllerInstance
  have hsame : Encoding.instanceText sources.task
      (lockedDoorSettings "instance.lp").encoding .controller = "#show." :=
    Except.ok.inj (hinstance.symm.trans hprogram)
  have hother : (Sas.parse Verification.lockedDoorFile).map (fun task => Encoding.instanceText task
      (lockedDoorSettings "instance.lp").encoding .controller) ≠ .ok "#show." := by
    decide +kernel
  exact hother (by rw [htask]; exact congrArg _ hsame)

end StrongCyclic.Synthesis
