import StrongCyclic.Proofs.Synthesis.Furnished
import StrongCyclic.Proofs.Synthesis.Gathering

/-!
How a run furnishes its directory. One lemma for each step up to the search says which files the step
adds and that they hold what they are meant to.
-/

namespace StrongCyclic

open FileTree Job Place RunDirectory

variable {σ : Type} {world after : World σ}

/-- A copy touches no file but its target. -/
theorem Workspace.copyInto_touches {directory : Place} {source : Path} {name : String} {u : Unit}
    (hplace : Proper directory) (hname : IsEntryName name)
    (h : Returns (copyInto source ((pathOf directory).join name)) world u after) :
    Touches directory {name} world.files after.files := by
  obtain ⟨same, between, hsame, h⟩ := returns_bind.mp h
  obtain ⟨rfl, -⟩ := isSame_returns hsame
  split at h
  · obtain ⟨-, rfl⟩ := returns_pure.mp h
    exact .refl _ _ _
  · obtain ⟨files, hcopy, rfl⟩ := returns_change.mp (returns_duringFile.mp h)
    obtain ⟨text, -, hwrite⟩ := exists_of_copy hcopy
    exact touches_of_alter hplace hname hwrite

/-- The file that has been copied has the text of its source. -/
theorem Workspace.copyInto_reads {source target : Path} {text : String} {u : Unit}
    (hworking : Proper world.files.workingDirectory) (hread : world.files.read source = .ok text)
    (h : Returns (copyInto source target) world u after) :
    after.files.read target = .ok text := by
  obtain ⟨same, between, hsame, h⟩ := returns_bind.mp h
  obtain ⟨rfl, hplaces⟩ := isSame_returns hsame
  split at h
  · next htrue =>
    obtain ⟨-, rfl⟩ := returns_pure.mp h
    obtain ⟨place, place', entry, hsource, htarget, -, heq⟩ := hplaces htrue
    obtain rfl := pathOf_injective (proper_of_resolve hworking hsource)
      (proper_of_resolve hworking htarget) heq
    obtain ⟨place', hsource', hentry⟩ := read_eq_ok.mp hread
    obtain rfl := Except.ok.inj (hsource.symm.trans hsource')
    exact read_eq_ok.mpr ⟨place, htarget, hentry⟩
  · obtain ⟨files, hcopy, rfl⟩ := returns_change.mp (returns_duringFile.mp h)
    obtain ⟨text', hread', hwrite⟩ := exists_of_copy hcopy
    obtain rfl := Except.ok.inj (hread.symm.trans hread')
    exact read_of_write hwrite

theorem RunDirectory.removeAll_touches {directory : Place} {names : List String} {u : Unit}
    (hplace : Proper directory) (hnames : ∀ name ∈ names, IsEntryName name)
    (h : Returns (removeAll (pathOf directory) names) world u after) :
    Touches directory {name | name ∈ names} world.files after.files := by
  induction names generalizing world with
  | nil =>
    obtain ⟨-, rfl⟩ := returns_pure.mp h
    exact .refl _ _ _
  | cons name names ih =>
    obtain ⟨hname, hrest⟩ := List.forall_mem_cons.mp hnames
    obtain ⟨_, between, hfirst, hothers⟩ := returns_bind.mp h
    obtain ⟨files, hremove, rfl⟩ := returns_change.mp (returns_asFailure.mp hfirst)
    refine ((touches_of_remove hplace hname hremove).trans (ih hrest hothers)).mono ?_
    rintro other (rfl | hother)
    · exact List.mem_cons_self
    · exact List.mem_cons_of_mem _ hother

/-- Only outputs of attempts are removed. -/
theorem RunDirectory.removeOutputs_touches {directory : Place} {count : Nat}
    (hplace : Proper directory)
    (h : Returns (removeOutputs (pathOf directory)) world count after) :
    Touches directory {name | FileNames.attemptSize? name ≠ none} world.files after.files := by
  obtain ⟨names, between, hquery, h⟩ := returns_bind.mp h
  obtain ⟨_, last, hremove, h⟩ := returns_bind.mp h
  obtain ⟨-, rfl⟩ := returns_pure.mp h
  obtain ⟨-, rfl⟩ := returns_query.mp (returns_asFailure.mp hquery)
  have hattempt : ∀ name ∈ (attempts names).map Prod.snd, FileNames.attemptSize? name ≠ none := by
    intro name hname
    obtain ⟨⟨size, _⟩, hmem, rfl⟩ := List.mem_map.mp hname
    simp [(mem_attempts.mp hmem).2]
  refine (removeAll_touches hplace (fun name hname => ?_) hremove).mono hattempt
  obtain ⟨size, hsize⟩ := Option.ne_none_iff_exists'.mp (hattempt name hname)
  exact FileNames.isEntryName_of_attemptSize? hsize

namespace Synthesis

variable {s : Settings} {solver : Solver σ} {providers : List (ConstraintProvider σ)}
  {directory : Place} {task : Task} {deadline : Deadline} {program : String} {sources : Sources}
  {prepared : FileTree} {made : List Exchange}

theorem Meant.isEntryName {a : Artefact} {text : String} (hprogram : IsEntryName program)
    (hnames : ∀ file ∈ sources.constraints, '/' ∉ file.name.toList) (h : Meant s sources made a text) :
    IsEntryName (a.name program) := by
  cases h with
  | program => exact hprogram
  | constraint hfile =>
    exact Artefact.isEntryName_constraint (hnames _ (List.mem_of_getElem? hfile))
  | output => exact FileNames.isEntryName_attemptOutput _
  | _ => exact Artefact.isEntryName_of_mem_fixed program (by decide)

/-- The task is copied. -/
theorem opening_furnishes {path : Path} {opened : World σ}
    (hworking : Proper world.files.workingDirectory)
    (h : Returns (opening s) world (path, task) opened) :
    ∃ directory prepared text, Proper directory ∧ path = pathOf directory ∧
      world.files.createDirectories s.output.directory = .ok prepared ∧
      prepared.resolve s.output.directory = .ok directory ∧
      prepared.read s.taskFile = .ok text ∧ Sas.parse text = .ok task ∧
      Proper prepared.workingDirectory ∧
      Touches directory {FileNames.task} prepared opened.files ∧
      opened.files.read ((pathOf directory).join FileNames.task) = .ok text := by
  obtain ⟨path', made, hprepare, h⟩ := returns_bind.mp h
  obtain ⟨task', loaded, hload, h⟩ := returns_bind.mp h
  obtain ⟨_, copied, hcopy, h⟩ := returns_bind.mp h
  obtain ⟨heq, rfl⟩ := returns_pure.mp h
  obtain ⟨rfl, rfl⟩ := Prod.mk.inj heq
  obtain ⟨⟨text, hread, hparse⟩, rfl⟩ := loadTask_returns hload
  obtain ⟨directory, hcreate, hresolve, rfl⟩ := exists_of_prepare hprepare
  have hworking' : Proper made.files.workingDirectory :=
    workingDirectory_of_createWithin hcreate ▸ hworking
  have hplace := proper_of_resolve hworking' hresolve
  exact ⟨directory, made.files, text, hplace, rfl, hcreate, hresolve, hread, hparse, hworking',
    Workspace.copyInto_touches hplace (by decide) hcopy,
    Workspace.copyInto_reads hworking' hread hcopy⟩

/-- A program that has been copied has not been written over before: its name is no name of a run, and
if it had been removed, there would be no copy. -/
theorem program_away {path : Path} {u : Unit} (hplace : Proper directory)
    (hprogram : ¬ IsRunFile program) (hlast : path.fileName? = some program)
    (htouches : Touches directory (Artefact.namesBefore program 5) prepared world.files)
    (hremoved : program ∈ world.files.namesIn directory → FileNames.attemptSize? program = none)
    (hcopy : Returns (Workspace.copyInto path ((pathOf directory).join program)) world u after) :
    ∀ name ∈ Artefact.namesBefore program 5, prepared.resolve path ≠ .ok (directory ++ [name]) := by
  have hname := isEntryName_of_fileName? hlast
  intro name hmem hresolve
  obtain ⟨above, heq⟩ := exists_of_fileName? hname hlast hresolve
  obtain ⟨rfl, rfl⟩ : directory = above ∧ name = program := by simpa using heq
  rcases hmem with ⟨a, hphase, hsame⟩ | hattempt
  · refine hprogram (hsame ▸ Artefact.isRunFile_name ?_)
    rintro rfl
    exact absurd hphase (by decide)
  · refine hattempt (hremoved ?_)
    rcases copyInto_returns hplace hname hcopy with ⟨-, hthere, -⟩ | ⟨text, hread, -⟩
    · exact hthere
    · obtain ⟨place, hplace', hentry⟩ := read_eq_ok.mp hread
      obtain rfl := Except.ok.inj ((htouches.resolve.mp hplace').symm.trans hresolve)
      exact mem_namesIn_of_entry hentry

section Steps

variable (hplace : Proper directory) (hprogram : ¬ IsRunFile program)
  (hentry : ∀ a text, Meant s sources made a text → IsEntryName (a.name program))

include hplace hprogram hentry

theorem writeInstance_furnishes {u : Unit}
    (h : Returns (writeInstance s sources.task .controller
      ((pathOf directory).join FileNames.controllerInstance)) world u after)
    (hworld : Furnished directory program (Meant s sources made) 1 prepared world.files) :
    Furnished directory program (Meant s sources made) 2 prepared after.files := by
  obtain ⟨files, hwrite, rfl⟩ := returns_change.mp (returns_asFailure.mp h)
  refine hworld.write hplace hprogram hentry (a := .controllerInstance) (by decide) (by decide)
    hwrite ?_
  rintro _ ⟨⟩
  rfl

/-! ### The weak plan -/

theorem weakPlanCall_furnishes {call : SolverCall}
    (h : Returns (weakPlanCall s (pathOf directory) sources.task) world call after)
    (hworld : Furnished directory program (Meant s sources made) 2 prepared world.files) :
    Furnished directory program (Meant s sources made) 3 prepared after.files := by
  obtain ⟨_, between, hinstance, h⟩ := returns_bind.mp h
  obtain ⟨files, hwrite, rfl⟩ :=
    returns_change.mp (returns_asFailure.mp (returns_asTrouble.mp hinstance))
  have hwritten : Furnished directory program (Meant s sources made) 3 prepared files := by
    refine hworld.write hplace hprogram hentry (a := .weakInstance) (by decide) (by decide)
      hwrite ?_
    rintro _ ⟨⟩
    rfl
  have hrest : Keeps (fun world : World σ =>
      Furnished directory program (Meant s sources made) 3 prepared world.files)
      (do
        let program ← Workspace.locate s.backbone.weakPlanProgram
        let knowledge ← locateOption s.backbone.sequentialKnowledge
        return SolverCall.mk
          (program :: (pathOf directory).join FileNames.weakInstance :: knowledge) ["--stats"]
          (pathOf directory)) :=
    .bind (keeps_locate _) fun _ => .bind (keeps_locateOption _) fun _ => keeps_pure
  exact hrest h hwritten

/-- The output of the weak plan search is kept. -/
theorem readEstimate_furnishes {x : Exchange} {run : SolverRun} {estimate : BackboneEstimate}
    (hcall : sources.weak = some x) (hreply : x.reply = .ok run)
    (h : Returns (readEstimate ((pathOf directory).join FileNames.weakPlanOutput) run) world estimate
      after)
    (hworld : Furnished directory program (Meant s sources made) 3 prepared world.files) :
    Furnished directory program (Meant s sources made) 4 prepared after.files := by
  obtain ⟨_, between, hwriting, h⟩ := returns_bind.mp h
  obtain ⟨files, hwrite, rfl⟩ := returns_change.mp (returns_asFailure.mp hwriting)
  have hwritten : Furnished directory program (Meant s sources made) 4 prepared files := by
    refine hworld.write hplace hprogram hentry (a := .weakPlanOutput) (by decide) (by decide)
      hwrite ?_
    rintro _ hmeant
    cases hmeant with
    | weakPlanOutput hcall' hreply' =>
    obtain rfl := Option.some.inj (hcall.symm.trans hcall')
    obtain rfl := Except.ok.inj (hreply.symm.trans hreply')
    rfl
  cases run with
  | timedOut text =>
    obtain ⟨-, rfl⟩ := returns_pure.mp h
    exact hwritten
  | finished text =>
    obtain ⟨out, reading, hread, h⟩ := returns_bind.mp h
    obtain ⟨b, planning, hplan, h⟩ := returns_bind.mp h
    obtain ⟨-, rfl⟩ := returns_ofExcept.mp hread
    obtain ⟨-, rfl⟩ := returns_ofExcept.mp hplan
    obtain ⟨-, rfl⟩ := returns_pure.mp h
    exact hwritten

/-- A plan is turned into constraints, unless only its length counts. -/
theorem useEstimate_furnishes {x : Exchange} {text : String} {out : SolverOutput} {b : Backbone}
    {found : SolveOutcome ⊕ Hints} (hcall : sources.weak = some x)
    (hreply : x.reply = .ok (.finished text)) (hread : readOutput text = .ok out)
    (hplan : Backbone.ofOutput out = .ok b)
    (h : Returns (useEstimate s (pathOf directory) (.found b)) world found after)
    (hworld : Furnished directory program (Meant s sources made) 4 prepared world.files) :
    Furnished directory program (Meant s sources made) 5 prepared after.files := by
  rw [useEstimate] at h
  split at h
  · next hsize =>
    obtain ⟨-, rfl⟩ := returns_pure.mp h
    refine hworld.skip hplace hprogram hentry (a := .backbone) (by decide) ?_
    rintro _ hmeant
    cases hmeant with
    | backbone hsize' => simp [hsize] at hsize'
  · obtain ⟨_, between, hconstraints, h⟩ := returns_bind.mp h
    obtain ⟨-, rfl⟩ := returns_pure.mp h
    obtain ⟨files, hwrite, rfl⟩ := returns_change.mp (returns_mapError.mp hconstraints)
    refine hworld.write hplace hprogram hentry (a := .backbone) (by decide) (by decide) hwrite ?_
    rintro _ hmeant
    cases hmeant with
    | backbone _ hcall' hreply' hread' hplan' =>
    obtain rfl := Option.some.inj (hcall.symm.trans hcall')
    cases hreply.symm.trans hreply'
    obtain rfl := Except.ok.inj (hread.symm.trans hread')
    obtain rfl := Except.ok.inj (hplan.symm.trans hplan')
    rfl

theorem useWeakReply_furnishes {x : Exchange} {run : SolverRun} {hints : Hints}
    (hcall : sources.weak = some x) (hreply : x.reply = .ok run)
    (h : Returns (useWeakReply s (pathOf directory) run) world (.inr hints) after)
    (hworld : Furnished directory program (Meant s sources made) 3 prepared world.files) :
    Furnished directory program (Meant s sources made) 5 prepared after.files := by
  obtain ⟨estimate, estimated, hestimate, h⟩ := returns_bind.mp h
  have hestimate := returns_during.mp hestimate
  have hkept := readEstimate_furnishes hplace hprogram hentry hcall hreply hestimate hworld
  obtain ⟨text, rfl, rfl⟩ | ⟨text, out, b, rfl, hread, hplan, rfl⟩ := readEstimate_returns hestimate
  · obtain ⟨heq, -⟩ := returns_pure.mp h
    cases heq
  rw [BackboneEstimate.ofBackbone] at h
  split at h
  · obtain ⟨_, between, -, h⟩ := returns_bind.mp h
    obtain ⟨heq, -⟩ := returns_pure.mp h
    cases heq
  · exact useEstimate_furnishes hplace hprogram hentry hcall hreply hread hplan h hkept

theorem HintsRun.furnishes {hints : Hints} (hsolver : solver.OnlyReplies)
    (h : HintsRun s solver (pathOf directory) sources.task deadline world (.ok (.inr hints)) after
      sources.weak)
    (hworld : Furnished directory program (Meant s sources made) 2 prepared world.files) :
    Furnished directory program (Meant s sources made) 5 prepared after.files := by
  generalize hweak : sources.weak = weak at h
  cases h with
  | disabled hdisabled =>
    have hinstance := hworld.skip hplace hprogram hentry (a := .weakInstance) (by decide) <| by
      intro _ hmeant
      cases hmeant with
      | weakInstance henabled => simp [hdisabled] at henabled
    have houtput := hinstance.skip hplace hprogram hentry (a := .weakPlanOutput) (by decide) <| by
      intro _ hmeant
      cases hmeant with
      | weakPlanOutput hcall => simp [hweak] at hcall
    refine houtput.skip hplace hprogram hentry (a := .backbone) (by decide) ?_
    intro _ hmeant
    cases hmeant with
    | backbone _ hcall => simp [hweak] at hcall
  | settled _ hcall hreply huse =>
    have hcalled := weakPlanCall_furnishes hplace hprogram hentry hcall hworld
    rw [← hsolver _ _ hreply] at hcalled
    exact useWeakReply_furnishes hplace hprogram hentry hweak rfl huse hcalled

/-! ### The controller program -/

omit hprogram in
theorem removeOutputs_furnishes {count : Nat}
    (h : Returns (removeOutputs (pathOf directory)) world count after)
    (hworld : Furnished directory program (Meant s sources made) 5 prepared world.files) :
    Furnished directory program (Meant s sources made) 5 prepared after.files := by
  refine hworld.frame hplace hentry (removeOutputs_touches hplace h) (fun _ => .inr) ?_
  intro a text _ hphase
  refine not_not.mpr (Artefact.attemptSize?_name ?_ ?_)
  · rintro rfl
    exact absurd hphase (by decide)
  · rintro size rfl
    exact absurd hphase (by simp [Artefact.phase])

/-- The old outputs are removed, and the controller program is copied. -/
theorem clean_furnishes {model : Path} (hworking : Proper prepared.workingDirectory)
    (hlast : s.solver.controllerModel.fileName? = some program)
    (hread : sources.programText = (prepared.read s.solver.controllerModel).toOption)
    (h : Returns (clean s (pathOf directory)) world model after)
    (hworld : Furnished directory program (Meant s sources made) 5 prepared world.files) :
    model = (pathOf directory).join program ∧
      Furnished directory program (Meant s sources made) 6 prepared after.files := by
  obtain ⟨count, cleaned, hremove, h⟩ := returns_bind.mp h
  rw [Workspace.copyProgram, hlast] at h
  obtain ⟨_, copied, hcopy, h⟩ := returns_bind.mp h
  obtain ⟨rfl, rfl⟩ := returns_pure.mp h
  have hname := isEntryName_of_fileName? hlast
  have hremoved := returns_asTrouble.mp hremove
  have hcleaned := removeOutputs_furnishes hplace hentry hremoved hworld
  have haway := program_away hplace hprogram hlast hcleaned.touches
    (fun hthere => ((mem_namesIn_removeOutputs hplace hremoved).mp hthere).2) hcopy
  refine ⟨rfl, hcleaned.next hplace hprogram hentry (a := .program) (by decide)
    (Workspace.copyInto_touches hplace hname hcopy) fun text hmeant => ?_⟩
  have hworking' : Proper cleaned.files.workingDirectory :=
    hcleaned.touches.workingDirectory ▸ hworking
  refine Workspace.copyInto_reads hworking' ((hcleaned.touches.read haway).mpr ?_) hcopy
  cases hmeant with
  | program htext => exact Fallible.toOption_eq_some.mp (hread.symm.trans htext)

/-! ### Undo pairs -/

/-- The output of the undo detection is kept. -/
theorem readUndo_furnishes {x : Exchange} {run : SolverRun} {byType : Bool} {file : ConstraintFile}
    (hcall : sources.undo = some x) (hreply : x.reply = .ok run)
    (h : Returns (readUndo ((pathOf directory).join FileNames.undoOutput) byType run) world file
      after)
    (hworld : Furnished directory program (Meant s sources made) 6 prepared world.files) :
    (∃ out, readOutput run.stdout = .ok out ∧ file =
      ⟨FileNames.undoConstraints, UndoPair.constraints byType (UndoPair.ofOutput out)⟩) ∧
      Furnished directory program (Meant s sources made) 7 prepared after.files := by
  obtain ⟨_, between, hwriting, h⟩ := returns_bind.mp h
  obtain ⟨files, hwrite, rfl⟩ := returns_change.mp (returns_asFailure.mp hwriting)
  obtain ⟨out, reading, hreading, h⟩ := returns_bind.mp h
  obtain ⟨hread, rfl⟩ := returns_ofExcept.mp hreading
  obtain ⟨rfl, rfl⟩ := returns_pure.mp h
  refine ⟨⟨out, hread, rfl⟩, hworld.write hplace hprogram hentry (a := .undoOutput) (by decide)
    (by decide) hwrite ?_⟩
  intro _ hmeant
  cases hmeant with
  | undoOutput hcall' hreply' =>
  obtain rfl := Option.some.inj (hcall.symm.trans hcall')
  obtain rfl := Except.ok.inj (hreply.symm.trans hreply')
  rfl

/-- The undo pairs are turned into constraints. -/
theorem useUndoReply_furnishes {x : Exchange} {run : SolverRun} {paths : List Path}
    (hcall : sources.undo = some x) (hreply : x.reply = .ok run)
    (h : Returns (useUndoReply s (pathOf directory) run) world paths after)
    (hworld : Furnished directory program (Meant s sources made) 6 prepared world.files) :
    Furnished directory program (Meant s sources made) 8 prepared after.files := by
  obtain ⟨file, detected, hdetect, h⟩ := returns_bind.mp h
  obtain ⟨⟨out, hread, rfl⟩, hkept⟩ := readUndo_furnishes hplace hprogram hentry hcall hreply
    (returns_during.mp hdetect) hworld
  obtain ⟨path, last, hconstraints, h⟩ := returns_bind.mp h
  obtain ⟨-, rfl⟩ := returns_pure.mp h
  obtain ⟨_, between, hfile, hconstraints⟩ := returns_bind.mp (returns_asTrouble.mp hconstraints)
  obtain ⟨-, rfl⟩ := returns_pure.mp hconstraints
  obtain ⟨files, hwrite, rfl⟩ := returns_change.mp (returns_asFailure.mp hfile)
  refine hkept.write hplace hprogram hentry (a := .undoConstraints) (by decide) (by decide)
    hwrite ?_
  intro _ hmeant
  cases hmeant with
  | undoConstraints hcall' hreply' hread' =>
  obtain rfl := Option.some.inj (hcall.symm.trans hcall')
  obtain rfl := Except.ok.inj (hreply.symm.trans hreply')
  obtain rfl := Except.ok.inj (hread.symm.trans hread')
  rfl

theorem UndoRun.furnishes {instanceFile : Path} {paths : List Path} (hsolver : solver.OnlyReplies)
    (h : UndoRun s solver (pathOf directory) instanceFile deadline world (.ok paths) after
      sources.undo)
    (hworld : Furnished directory program (Meant s sources made) 6 prepared world.files) :
    Furnished directory program (Meant s sources made) 8 prepared after.files := by
  generalize hundo : sources.undo = undo at h
  cases h with
  | unset =>
    have houtput := hworld.skip hplace hprogram hentry (a := .undoOutput) (by decide) <| by
      intro _ hmeant
      cases hmeant with
      | undoOutput hcall => simp [hundo] at hcall
    refine houtput.skip hplace hprogram hentry (a := .undoConstraints) (by decide) ?_
    intro _ hmeant
    cases hmeant with
    | undoConstraints hcall => simp [hundo] at hcall
  | settled _ hlocate hreply huse =>
    obtain ⟨-, rfl⟩ := locate_returns hlocate
    refine useUndoReply_furnishes hplace hprogram hentry hundo rfl huse ?_
    rw [hsolver _ _ hreply]
    exact hworld

/-! ### The constraints -/

theorem furnished_of_writesNumbered {before after : FileTree}
    (h : WritesNumbered directory program 1 sources.constraints before after)
    (hbefore : Furnished directory program (Meant s sources made) 8 prepared before) :
    Furnished directory program (Meant s sources made) 9 prepared after := by
  refine hbefore.step hplace hprogram hentry h.touches ?_ ?_
  · rintro name ⟨i, file, -, rfl⟩
    exact ⟨_, rfl, rfl⟩
  · intro a text hmeant hphase
    cases hmeant with
    | constraint hfile =>
      rw [Nat.add_comm]
      exact h.reads _ _ hfile
    | _ => cases hphase

end Steps

/-! ### The end of a run -/

/-- The names of the files that are written when a controller has been found. -/
def endNames : Set String :=
  {FileNames.controllerText, FileNames.controllerGraph, FileNames.verification}

section Ending

variable {start : FileTree} (hplace : Proper directory)

include hplace

theorem keeps_endWrite {name : String} (hname : IsEntryName name) (hend : name ∈ endNames)
    (text : String) : Keeps (fun world : World σ => Touches directory endNames start world.files)
      (change (·.write ((pathOf directory).join name) text)) :=
  keeps_change fun _ _ hwrite hworld => hworld.append
    ((touches_of_alter hplace hname hwrite).mono (Set.singleton_subset_iff.mpr hend))

theorem rebuild_touches : Keeps (fun world : World σ => Touches directory endNames start world.files)
    (rebuild (pathOf directory)) := by
  refine .bind (keeps_lastOutput _) fun file => .bind keeps_query.mapError fun output => ?_
  split
  · exact keeps_pure
  · refine .bind keeps_ofExcept fun answer => .bind (keeps_loadTask _) fun task => ?_
    refine .bind keeps_ofExcept.mapError fun c => .bind (.bind ?_ fun _ => ?_) fun _ => keeps_pure
    · exact (keeps_endWrite hplace (by decide) (by simp [endNames]) _).mapError
    · exact (keeps_endWrite hplace (by decide) (by simp [endNames]) _).mapError

theorem check_touches : Keeps (fun world : World σ => Touches directory endNames start world.files)
    (RunDirectory.check (pathOf directory)) := by
  have hrecord (result : RunCheck) :
      Keeps (fun world : World σ => Touches directory endNames start world.files) (do
        Job.duringFile (.writing ((pathOf directory).join FileNames.verification))
          (Job.change (·.write ((pathOf directory).join FileNames.verification) result.record))
        return result) :=
    .bind (keeps_endWrite hplace (by decide) (by simp [endNames]) _).mapError fun _ => keeps_pure
  refine .bind (rebuild_touches hplace) fun found => ?_
  split
  · exact .bind keeps_ofExcept fun v => .bind keeps_pure hrecord
  · exact .bind keeps_pure hrecord

theorem checkSolution_touches (outcome : SolveOutcome) :
    Keeps (fun world : World σ => Touches directory endNames start world.files)
      (checkSolution s (pathOf directory) outcome) := by
  cases outcome with
  | solved size states output =>
    rw [checkSolution]
    split
    · exact .bind (check_touches hplace) fun _ => keeps_pure
    · split
      · exact .bind (rebuild_touches hplace) fun _ => keeps_pure
      · exact keeps_pure
  | _ => exact keeps_pure

end Ending

end Synthesis

end StrongCyclic
